import KOs.Net.Arp

namespace KOs.Net.Arp

open KOs.Common KOs.Data Function List Packet

inductive WatchdogStep (e : Nat) (s : Cache) : Cache → Prop where
  | ignore (resolved : (s.entries e).state = .resolved) : WatchdogStep e s s
  | fail (unresolved : (s.entries e).state = .unresolved) (last : arpRetrys ≤ (s.entries e).retrys + 1) :
      WatchdogStep e s ((s.setEntry e { s.entries e with retrys := -1, pending := [] }).complete
        ((s.entries e).pending.map Packet.fail))
  | request {requests : List Ip} (unresolved : (s.entries e).state = .unresolved)
      (more : (s.entries e).retrys + 1 < arpRetrys) :
      WatchdogStep e s { s.setEntry e { s.entries e with retrys := (s.entries e).retrys + 1 } with
        requests
        timers := e :: s.timers }

theorem arpWatchdog_step (e : Nat) (s : Cache) : WatchdogStep e s (arpWatchdog e s) := by
  rw [arpWatchdog]
  dsimp only
  split
  next unresolved =>
    split
    next last =>
      exact .fail unresolved last
    next more =>
      exact .request unresolved (Int.not_le.mp more)
  next resolved =>
    cases state : (s.entries e).state with
    | unresolved => exact absurd state resolved
    | resolved => exact .ignore state

def Cache.queue (packet : Packet) (ip : Ip) (e : Nat) (s : Cache) : Cache :=
  { s.setEntry e { s.entries e with pending := packet :: (s.entries e).pending } with
    submitted := s.submitted ++ [ip]
    watching := some e }

/-- What a step does, the packet of a `send` numbered. -/
inductive ArpStep (s : Cache) : ArpEvent → Cache → Prop where
  | broadcast {packet : Packet} (id : packet.id = s.submitted.length) (result : packet.result = .success)
      (dst : packet.dst = .link macBroadcast) :
      ArpStep s (.send ipBroadcast)
        (Cache.complete [packet] { s with submitted := s.submitted ++ [ipBroadcast] })
  | direct {packet : Packet} {ip : Ip} {e : Nat} (id : packet.id = s.submitted.length)
      (result : packet.result = .success) (known : arpCacheFind ip s = some e)
      (resolved : (s.entries e).state = .resolved) (dst : packet.dst = .link (s.entries e).mac) :
      ArpStep s (.send ip) (Cache.complete [packet] { s with submitted := s.submitted ++ [ip] })
  | queue {packet : Packet} {ip : Ip} {e : Nat} (id : packet.id = s.submitted.length)
      (result : packet.result = .success) (known : arpCacheFind ip s = some e)
      (unresolved : (s.entries e).state = .unresolved) :
      ArpStep s (.send ip) (s.queue packet ip e)
  | start {packet : Packet} {ip : Ip} {entry : ArpCacheEntry} (id : packet.id = s.submitted.length)
      (result : packet.result = .success) (other : ip ≠ ipBroadcast) (unknown : arpCacheFind ip s = none)
      (made : entry.ip = ip ∧ entry.state = .unresolved ∧ entry.retrys = -1 ∧ entry.pending = [packet]) :
      ArpStep s (.send ip) (arpWatchdog s.made (Cache.add entry { s with submitted := s.submitted ++ [ip] }))
  | watch {e : Nat} (idle : (s.entries e).retrys = -1) :
      ArpStep s (.watch e) (arpWatchdog e { s with watching := none })
  | watched {e : Nat} (busy : (s.entries e).retrys ≠ -1) : ArpStep s (.watch e) { s with watching := none }
  | resolve {mac : Mac} {ip : Ip} {e : Nat} (known : arpCacheFind ip s = some e)
      (unresolved : (s.entries e).state = .unresolved) :
      ArpStep s (.store mac ip) ((s.setEntry e { s.entries e with state := .resolved, mac }).complete
        ((s.entries e).pending.map (Packet.resolve mac)))
  | known {mac : Mac} {ip : Ip} : ArpStep s (.store mac ip) s
  | learn {mac : Mac} {ip : Ip} {entry : ArpCacheEntry} (unknown : arpCacheFind ip s = none)
      (made : entry.ip = ip ∧ entry.state = .resolved) : ArpStep s (.store mac ip) (s.add entry)
  | expire {e : Nat} (active : e ∈ s.timers) :
      ArpStep s (.expire e) (arpWatchdog e { s with timers := s.timers.erase e })

variable {s s' : Cache} {event : ArpEvent}

theorem submit_step {ip : Ip} (ran : submit ip s = .ok s') : ArpStep s (.send ip) s' := by
  cases ran
  rw [arpResolve]
  split
  next broadcast =>
    subst broadcast
    exact .broadcast rfl rfl rfl
  next other =>
    split
    next e known =>
      dsimp only
      split
      next unresolved =>
        exact .queue rfl rfl known unresolved
      next resolved =>
        exact .direct rfl rfl known resolved rfl
    next unknown =>
      exact .start rfl rfl other unknown ⟨rfl, rfl, rfl, rfl⟩

theorem arpCacheStore_step (mac : Mac) (ip : Ip) (s : Cache) : ArpStep s (.store mac ip) (arpCacheStore mac ip s) := by
  rw [arpCacheStore]
  split
  next e known =>
    dsimp only
    split
    next unresolved =>
      exact .resolve known unresolved
    · exact .known
  next unknown =>
    exact .learn unknown ⟨rfl, rfl⟩

theorem arp_step (enabled : arp.enabled event s = true) (ran : arp.perform event s = .ok s') : ArpStep s event s' := by
  cases event with
  | send => exact submit_step ran
  | watch =>
    cases ran
    rw [arpResolveWatch]
    split
    next idle =>
      exact .watch idle
    next busy =>
      exact .watched busy
  | store mac ip =>
    cases ran
    exact arpCacheStore_step mac ip s
  | expire =>
    cases ran
    exact .expire (of_decide_eq_true enabled)

/-- Every entry is in the chain of its address, and no two have the same one. -/
structure Cache.Filed (s : Cache) : Prop where
  chained : ∀ e < s.made, e ∈ s.arpCache (bucket (s.entries e).ip)
  made : ∀ b, ∀ e ∈ s.arpCache b, e < s.made
  unique : ∀ e < s.made, ∀ f < s.made, (s.entries e).ip = (s.entries f).ip → e = f

variable {e f : Nat} {ip : Ip} {entry : ArpCacheEntry}
variable {submitted : List Ip}

theorem Cache.setEntry_entries (e f : Nat) (entry : ArpCacheEntry) (s : Cache) :
    (s.setEntry e entry).entries f = if f = e then entry else s.entries f :=
  update_apply ..

theorem Cache.setEntry_other (entry : ArpCacheEntry) (other : f ≠ e) : (s.setEntry e entry).entries f = s.entries f :=
  update_of_ne other ..

@[simp] theorem Cache.setEntry_self (entry : ArpCacheEntry) : (s.setEntry e entry).entries e = entry :=
  update_self ..

theorem Cache.add_old (entry : ArpCacheEntry) (old : e < s.made) :
    (Cache.add entry { s with submitted }).entries e = s.entries e :=
  update_of_ne (old.ne) ..

@[simp] theorem Cache.add_new (entry : ArpCacheEntry) : (Cache.add entry { s with submitted }).entries s.made = entry :=
  update_self ..

theorem Cache.queue_self (packet : Packet) (ip : Ip) :
    (s.queue packet ip e).entries e = { s.entries e with pending := packet :: (s.entries e).pending } :=
  setEntry_self _

theorem Cache.queue_other (packet : Packet) (ip : Ip) (other : f ≠ e) :
    (s.queue packet ip e).entries f = s.entries f :=
  setEntry_other _ other

theorem Cache.setEntry_ip (same : entry.ip = (s.entries e).ip) (f : Nat) :
    ((s.setEntry e entry).entries f).ip = (s.entries f).ip := by
  rw [setEntry_entries]
  split
  next self =>
    rw [self, same]
  · rfl

namespace Cache.Filed

variable (filed : s.Filed)
include filed

theorem known (found : arpCacheFind ip s = some e) : e < s.made ∧ (s.entries e).ip = ip := by
  refine ⟨filed.made _ e (mem_of_find?_eq_some found), ?_⟩
  simpa using find?_some found

theorem unknown (missing : arpCacheFind ip s = none) : ∀ e < s.made, (s.entries e).ip ≠ ip := by
  intro e old same
  have absent := find?_eq_none.mp missing e
  rw [← same] at absent
  simpa using absent (filed.chained e old)

theorem same (ips : ∀ f, (s'.entries f).ip = (s.entries f).ip) (made : s'.made = s.made)
    (chains : s'.arpCache = s.arpCache) : s'.Filed := by
  refine ⟨fun f bound => ?_, fun b f mem => ?_, fun f first g second eq => ?_⟩
  · rw [chains, ips]
    exact filed.chained f (made ▸ bound)
  · rw [made]
    exact filed.made b f (chains ▸ mem)
  · rw [ips, ips] at eq
    exact filed.unique f (made ▸ first) g (made ▸ second) eq

theorem add (missing : arpCacheFind entry.ip s = none) : (s.add entry).Filed := by
  have other := filed.unknown missing
  refine ⟨?_, ?_, ?_⟩
  · intro e bound
    rcases Nat.lt_succ_iff_lt_or_eq.mp bound with old | rfl
    · rw [add_old _ old]
      by_cases same : bucket (s.entries e).ip = bucket entry.ip
      · simpa [Cache.add, same] using .inr (same ▸ filed.chained e old)
      · simpa [Cache.add, update_of_ne same] using filed.chained e old
    · simp [Cache.add]
  · intro b e mem
    by_cases same : b = bucket entry.ip
    · subst same
      rcases (by simpa [Cache.add] using mem : e = s.made ∨ e ∈ s.arpCache (bucket entry.ip)) with rfl | old
      · exact Nat.lt_succ_self _
      · exact Nat.lt_succ_of_lt (filed.made _ e old)
    · exact Nat.lt_succ_of_lt (filed.made b e (by simpa [Cache.add, update_of_ne same] using mem))
  · intro e first f second eq
    rcases Nat.lt_succ_iff_lt_or_eq.mp first with old | rfl <;>
      rcases Nat.lt_succ_iff_lt_or_eq.mp second with older | rfl
    · rw [add_old _ old, add_old _ older] at eq
      exact filed.unique e old f older eq
    · rw [add_old _ old, add_new] at eq
      exact absurd eq (other e old)
    · rw [add_new, add_old _ older] at eq
      exact absurd eq.symm (other f older)
    · rfl

theorem watchdog (step : WatchdogStep e s s') : s'.Filed := by
  cases step with
  | ignore => exact filed
  | fail | request => exact filed.same (setEntry_ip rfl) rfl rfl

theorem step (step : ArpStep s event s') : s'.Filed := by
  cases step with
  | broadcast | direct | watched => exact { filed with }
  | queue | resolve => exact filed.same (setEntry_ip rfl) rfl rfl
  | start _ _ _ unknown made =>
    obtain ⟨rfl, _⟩ := made
    refine watchdog ?_ (arpWatchdog_step _ _)
    exact { filed.add unknown with }
  | watch | expire =>
    refine watchdog ?_ (arpWatchdog_step _ _)
    exact { filed with }
  | known => exact filed
  | learn unknown made =>
    obtain ⟨rfl, _⟩ := made
    exact filed.add unknown

end Cache.Filed

/-- The packet waits for the address of an entry. -/
def Cache.PendingOn (s : Cache) (id e : Nat) : Prop :=
  e < s.made ∧ (s.entries e).state = .unresolved ∧ id ∈ (s.entries e).pending.map Packet.id

def Cache.Target (s : Cache) (ip : Ip) (dst : Address) : Prop :=
  ip = ipBroadcast ∧ dst = .link macBroadcast ∨
    ∃ e < s.made, (s.entries e).ip = ip ∧ (s.entries e).state = .resolved ∧ dst = .link (s.entries e).mac

/-- What is known of the packets that wait on an entry. -/
structure Cache.Waits (s : Cache) (entry : ArpCacheEntry) : Prop where
  ip : entry.ip ≠ ipBroadcast
  once : (entry.pending.map Packet.id).Nodup
  packets : ∀ packet ∈ entry.pending, packet.result = .success ∧ s.submitted[packet.id]? = some entry.ip ∧
    packet.id ∉ s.completed.map Packet.id

structure Cache.Accounted (s : Cache) : Prop where
  waits : ∀ e < s.made, (s.entries e).state = .unresolved → s.Waits (s.entries e)
  completed : ∀ packet ∈ s.completed, ∃ ip, s.submitted[packet.id]? = some ip ∧
    (packet.result = .success → s.Target ip packet.dst)
  once : (s.completed.map Packet.id).Nodup
  found : ∀ id < s.submitted.length, (∃ e, s.PendingOn id e) ∨ id ∈ s.completed.map Packet.id

/-- The entries that are resolved stay as they are. -/
def Cache.Keeps (s s' : Cache) : Prop :=
  ∀ e < s.made, (s.entries e).state = .resolved → e < s'.made ∧ s'.entries e = s.entries e

variable {id : Nat}
variable (accounted : s.Accounted)

section Accounted

variable {packet : Packet}

theorem Cache.Target.keep {dst : Address} (keeps : s.Keeps s') (target : s.Target ip dst) : s'.Target ip dst := by
  rcases target with broadcast | ⟨e, old, same, resolved, sent⟩
  · exact .inl broadcast
  · obtain ⟨bound, entry⟩ := keeps e old resolved
    exact .inr ⟨e, bound, by rw [entry, same], by rw [entry, resolved], by rw [entry, sent]⟩

theorem Cache.setEntry_keeps (unresolved : (s.entries e).state = .unresolved) (entry : ArpCacheEntry) :
    s.Keeps (s.setEntry e entry) := by
  intro f old resolved
  refine ⟨old, setEntry_other _ ?_⟩
  rintro rfl
  rw [unresolved] at resolved
  contradiction

theorem Cache.add_keeps (entry : ArpCacheEntry) : s.Keeps (Cache.add entry { s with submitted }) :=
  fun _ old _ => ⟨Nat.lt_succ_of_lt old, add_old entry old⟩

theorem submitted_later {before after : List Ip} (grown : before <+: after) (known : before[id]? = some ip) :
    after[id]? = some ip := by
  obtain ⟨_, rfl⟩ := grown
  rw [List.getElem?_append_left (List.getElem?_eq_some_iff.mp known).1, known]

theorem Cache.Waits.later (waits : s.Waits entry) (grown : s.submitted <+: s'.submitted)
    (apart : ∀ packet ∈ entry.pending, packet.id ∉ s'.completed.map Packet.id) : s'.Waits entry := by
  refine ⟨waits.ip, waits.once, fun packet mem => ?_⟩
  obtain ⟨result, known, _⟩ := waits.packets packet mem
  exact ⟨result, submitted_later grown known, apart _ mem⟩

theorem Cache.Waits.absent (waits : s.Waits entry) : ∀ packet ∈ entry.pending, packet.id ∉ s.completed.map Packet.id :=
  fun packet mem => (waits.packets packet mem).2.2

theorem Cache.Waits.bound (waits : s.Waits entry) (waiting : id ∈ entry.pending.map Packet.id) :
    id < s.submitted.length := by
  obtain ⟨packet, mem, rfl⟩ := List.mem_map.mp waiting
  exact (List.getElem?_eq_some_iff.mp (waits.packets _ mem).2.1).1

namespace Cache.Accounted

section

include accounted

theorem completed_bound (done : id ∈ s.completed.map Packet.id) :
    id < s.submitted.length := by
  obtain ⟨packet, mem, rfl⟩ := List.mem_map.mp done
  obtain ⟨ip, known, _⟩ := accounted.completed packet mem
  exact (List.getElem?_eq_some_iff.mp known).1

theorem fresh : s.submitted.length ∉ s.completed.map Packet.id :=
  fun done => lt_irrefl _ (accounted.completed_bound done)

theorem completed_later (keeps : s.Keeps s') (grown : s.submitted <+: s'.submitted) : ∀ packet ∈ s.completed,
    ∃ ip, s'.submitted[packet.id]? = some ip ∧ (packet.result = .success → s'.Target ip packet.dst) := by
  intro packet mem
  obtain ⟨ip, known, sent⟩ := accounted.completed packet mem
  exact ⟨ip, submitted_later grown known, fun success => (sent success).keep keeps⟩

theorem send (id : packet.id = s.submitted.length) (target : s.Target ip packet.dst) :
    (Cache.complete [packet] { s with submitted := s.submitted ++ [ip] }).Accounted := by
  have keeps : s.Keeps (Cache.complete [packet] { s with submitted := s.submitted ++ [ip] }) :=
    fun _ old _ => ⟨old, rfl⟩
  refine ⟨?_, ?_, ?_, ?_⟩
  · intro e old unresolved
    have waits := accounted.waits e old unresolved
    refine waits.later (prefix_append ..) fun waiting mem => ?_
    have bound := waits.bound (mem_map_of_mem mem)
    have absent := waits.absent waiting mem
    simp only [Cache.complete, map_append, mem_append, map_cons, map_nil, mem_singleton, not_or]
    exact ⟨absent, by omega⟩
  · intro done mem
    rcases mem_append.mp mem with old | new
    · exact accounted.completed_later keeps (prefix_append ..) done old
    · rw [mem_singleton.mp new]
      exact ⟨ip, by simp [Cache.complete, id], fun _ => target⟩
  · simp only [Cache.complete, map_append, map_cons, map_nil, id]
    refine nodup_append.mpr ⟨accounted.once, by simp, fun done old number new => ?_⟩
    rw [mem_singleton.mp new]
    exact (accounted.completed_bound old).ne
  · intro number bound
    simp only [Cache.complete, length_append, length_singleton] at bound
    rcases Nat.lt_succ_iff_lt_or_eq.mp bound with old | rfl
    · rcases accounted.found _ old with pending | done
      · exact .inl pending
      · exact .inr (by simp only [Cache.complete, map_append, mem_append, done, true_or])
    · exact .inr (by simp [Cache.complete, id])

theorem queue (id : packet.id = s.submitted.length) (result : packet.result = .success)
    (old : e < s.made) (same : (s.entries e).ip = ip) (unresolved : (s.entries e).state = .unresolved) :
    (s.queue packet ip e).Accounted := by
  have waits := accounted.waits e old unresolved
  have keeps : s.Keeps (s.queue packet ip e) := setEntry_keeps unresolved _
  refine ⟨?_, accounted.completed_later keeps (prefix_append ..), accounted.once, ?_⟩
  · intro f bound waiting
    by_cases mine : f = e
    · subst mine
      have later : (s.queue packet ip f).Waits (s.entries f) := waits.later (prefix_append ..) waits.absent
      rw [queue_self]
      refine ⟨waits.ip, ?_, ?_⟩
      · simp only [map_cons, nodup_cons]
        refine ⟨fun queued => ?_, waits.once⟩
        have := waits.bound queued
        omega
      · intro other mem
        rcases mem_cons.mp mem with rfl | mem
        · exact ⟨result, by simp [Cache.queue, id, same], id ▸ accounted.fresh⟩
        · exact later.packets _ mem
    · rw [queue_other _ ip mine] at waiting ⊢
      have others := accounted.waits f bound waiting
      exact others.later (prefix_append ..) others.absent
  · intro number bound
    simp only [Cache.queue, length_append, length_singleton] at bound
    rcases Nat.lt_succ_iff_lt_or_eq.mp bound with earlier | rfl
    · rcases accounted.found _ earlier with ⟨f, known, waiting, mem⟩ | done
      · refine .inl ⟨f, known, ?_⟩
        by_cases mine : f = e
        · subst mine
          rw [queue_self]
          exact ⟨waiting, mem_cons_of_mem _ mem⟩
        · rw [queue_other _ ip mine]
          exact ⟨waiting, mem⟩
      · exact .inr done
    · refine .inl ⟨e, old, ?_⟩
      rw [queue_self]
      exact ⟨unresolved, by simp [id]⟩

theorem add (grown : s.submitted <+: submitted)
    (waits : entry.state = .unresolved → (Cache.add entry { s with submitted }).Waits entry)
    (found : ∀ id < submitted.length, id < s.submitted.length ∨
      entry.state = .unresolved ∧ id ∈ entry.pending.map Packet.id) :
    (Cache.add entry { s with submitted }).Accounted := by
  refine ⟨?_, accounted.completed_later (add_keeps _) grown, accounted.once, ?_⟩
  · intro f bound waiting
    rcases Nat.lt_succ_iff_lt_or_eq.mp bound with old | rfl
    · rw [add_old _ old] at waiting ⊢
      have others := accounted.waits f old waiting
      exact others.later grown others.absent
    · rw [add_new] at waiting ⊢
      exact waits waiting
  · intro number bound
    rcases found number bound with earlier | new
    · rcases accounted.found _ earlier with ⟨f, old, waiting⟩ | done
      · refine .inl ⟨f, Nat.lt_succ_of_lt old, ?_⟩
        rw [add_old _ old]
        exact waiting
      · exact .inr done
    · refine .inl ⟨s.made, Nat.lt_succ_self _, ?_⟩
      rw [add_new]
      exact new

theorem start (id : packet.id = s.submitted.length) (result : packet.result = .success)
    (other : entry.ip ≠ ipBroadcast) (unresolved : entry.state = .unresolved) (pending : entry.pending = [packet]) :
    (Cache.add entry { s with submitted := s.submitted ++ [entry.ip] }).Accounted := by
  refine accounted.add (prefix_append ..) (fun _ => ⟨other, by simp [pending], ?_⟩) ?_
  · intro _ mem
    rw [pending, mem_singleton] at mem
    rw [mem]
    exact ⟨result, by simp [Cache.add, id], id ▸ accounted.fresh⟩
  · intro _ bound
    rw [length_append, length_singleton] at bound
    exact (Nat.lt_succ_iff_lt_or_eq.mp bound).imp_right fun new => ⟨unresolved, by simp [pending, id, new]⟩

theorem learn (resolved : entry.state = .resolved) : (s.add entry).Accounted := by
  refine accounted.add prefix_rfl (fun unresolved => ?_) fun _ => .inl
  rw [resolved] at unresolved
  contradiction

theorem flush (filed : s.Filed) (old : e < s.made)
    (unresolved : (s.entries e).state = .unresolved) (ip : entry.ip = (s.entries e).ip)
    (drained : entry.state = .unresolved → entry.pending = []) {become : Packet → Packet}
    (id : ∀ packet, (become packet).id = packet.id)
    (sent : ∀ packet ∈ (s.entries e).pending, (become packet).result = .success →
      entry.state = .resolved ∧ (become packet).dst = .link entry.mac) :
    ((s.setEntry e entry).complete ((s.entries e).pending.map become)).Accounted := by
  have waits := accounted.waits e old unresolved
  have ids : ((s.entries e).pending.map become).map Packet.id = (s.entries e).pending.map Packet.id := by
    simp only [map_map]
    exact map_congr_left fun packet _ => id packet
  have keeps : s.Keeps ((s.setEntry e entry).complete ((s.entries e).pending.map become)) :=
    setEntry_keeps unresolved _
  have here : ((s.setEntry e entry).complete ((s.entries e).pending.map become)).entries e = entry :=
    setEntry_self _
  have there : ∀ f ≠ e, ((s.setEntry e entry).complete ((s.entries e).pending.map become)).entries f = s.entries f :=
    fun f => setEntry_other _
  refine ⟨?_, ?_, ?_, ?_⟩
  · intro f bound waiting
    by_cases mine : f = e
    · subst mine
      rw [here] at waiting ⊢
      have empty := drained waiting
      exact ⟨ip ▸ waits.ip, by simp [empty], by simp [empty]⟩
    · rw [there f mine] at waiting ⊢
      have others := accounted.waits f bound waiting
      refine others.later prefix_rfl fun packet mem done => ?_
      rw [Cache.complete, map_append, ids] at done
      rcases mem_append.mp done with before | now
      · exact others.absent _ mem before
      · -- A packet on both entries would be for both addresses.
        obtain ⟨other, queued, eq⟩ := mem_map.mp now
        have first := (waits.packets other queued).2.1
        rw [eq, (others.packets _ mem).2.1] at first
        exact mine (filed.unique f bound e old (Option.some.inj first))
  · intro packet mem
    rcases mem_append.mp mem with before | now
    · exact accounted.completed_later keeps prefix_rfl _ before
    · obtain ⟨queued, waiting, rfl⟩ := mem_map.mp now
      rw [id]
      refine ⟨(s.entries e).ip, (waits.packets _ waiting).2.1, fun success => .inr ⟨e, old, ?_⟩⟩
      rw [here]
      exact ⟨ip, sent _ waiting success⟩
  · rw [Cache.complete, map_append, ids]
    refine nodup_append.mpr ⟨accounted.once, waits.once, fun number done other now eq => ?_⟩
    obtain ⟨queued, waiting, rfl⟩ := mem_map.mp now
    exact waits.absent _ waiting (eq ▸ done)
  · intro number bound
    rw [Cache.complete, map_append, ids]
    rcases accounted.found number bound with ⟨f, known, waiting, mem⟩ | done
    · by_cases mine : f = e
      · exact .inr (mem_append_right _ (mine ▸ mem))
      · refine .inl ⟨f, known, ?_⟩
        rw [setEntry_other _ mine]
        exact ⟨waiting, mem⟩
    · exact .inr (mem_append_left _ done)

theorem same (made : s'.made = s.made) (submitted : s'.submitted = s.submitted) (completed : s'.completed = s.completed)
    (entries : ∀ f, ∃ retrys, s'.entries f = { s.entries f with retrys }) : s'.Accounted := by
  have keep : ∀ f, (s'.entries f).ip = (s.entries f).ip ∧ (s'.entries f).state = (s.entries f).state ∧
      (s'.entries f).mac = (s.entries f).mac ∧ (s'.entries f).pending = (s.entries f).pending := by
    intro f
    obtain ⟨retrys, entry⟩ := entries f
    rw [entry]
    exact ⟨rfl, rfl, rfl, rfl⟩
  refine ⟨fun f bound waiting => ?_, fun packet mem => ?_, completed ▸ accounted.once, fun number bound => ?_⟩
  · obtain ⟨ip, state, _, pending⟩ := keep f
    obtain ⟨other, once, packets⟩ := accounted.waits f (made ▸ bound) (state ▸ waiting)
    refine ⟨ip ▸ other, pending ▸ once, ?_⟩
    rw [pending, submitted, completed, ip]
    exact packets
  · obtain ⟨ip, known, sent⟩ := accounted.completed _ (completed ▸ mem)
    refine ⟨ip, submitted ▸ known, fun success => ?_⟩
    rcases sent success with broadcast | ⟨f, old, same, resolved, target⟩
    · exact .inl broadcast
    · obtain ⟨ips, state, mac, _⟩ := keep f
      exact .inr ⟨f, made ▸ old, ips.trans same, state.trans resolved, mac ▸ target⟩
  · rcases accounted.found _ (submitted ▸ bound) with ⟨f, old, waiting, mem⟩ | done
    · obtain ⟨_, state, _, pending⟩ := keep f
      exact .inl ⟨f, made ▸ old, state.trans waiting, pending ▸ mem⟩
    · exact .inr (completed ▸ done)

theorem watchdog (filed : s.Filed) (old : e < s.made) (step : WatchdogStep e s s') :
    s'.Accounted := by
  cases step with
  | ignore => exact accounted
  | fail unresolved =>
    refine accounted.flush filed old unresolved ?_ ?_ (fun _ => rfl) (fun packet _ success => ?_)
    · rfl
    · exact fun _ => rfl
    · rw [fail] at success
      contradiction
  | request =>
    refine accounted.same rfl rfl rfl fun f => ?_
    rw [setEntry_entries]
    split
    next mine =>
      exact ⟨_, by rw [mine]⟩
    · exact ⟨_, rfl⟩

theorem step (filed : s.Filed) (timers : ∀ e ∈ s.timers, e < s.made)
    (watching : ∀ e ∈ s.watching, e < s.made) (enabled : arp.enabled event s = true) (step : ArpStep s event s') :
    s'.Accounted := by
  cases step with
  | broadcast id _ dst => exact accounted.send id (.inl ⟨rfl, dst⟩)
  | direct id _ known resolved dst =>
    obtain ⟨old, same⟩ := filed.known known
    exact accounted.send id (.inr ⟨_, old, same, resolved, dst⟩)
  | queue id result known unresolved =>
    obtain ⟨old, same⟩ := filed.known known
    exact accounted.queue id result old same unresolved
  | start id result other unknown made =>
    obtain ⟨rfl, unresolved, _, pending⟩ := made
    refine watchdog (accounted.start id result other unresolved pending) ?_ (Nat.lt_succ_self _) (arpWatchdog_step _ _)
    exact { filed.add unknown with }
  | watch =>
    have old := watching _ (of_decide_eq_true enabled)
    refine watchdog ?_ ?_ ?_ (arpWatchdog_step _ _)
    · exact accounted.same rfl rfl rfl fun _ => ⟨_, rfl⟩
    · exact { filed with }
    · exact old
  | watched => exact accounted.same rfl rfl rfl fun _ => ⟨_, rfl⟩
  | resolve known unresolved =>
    obtain ⟨old, _⟩ := filed.known known
    refine accounted.flush filed old unresolved ?_ ?_ (fun _ => rfl) (fun packet _ _ => ⟨?_, ?_⟩)
    · rfl
    · exact fun waiting => nomatch waiting
    · rfl
    · rfl
  | known => exact accounted
  | learn _ made => exact accounted.learn made.2
  | expire active =>
    refine watchdog ?_ ?_ ?_ (arpWatchdog_step _ _)
    · exact accounted.same rfl rfl rfl fun _ => ⟨_, rfl⟩
    · exact { filed with }
    · exact timers _ active

end

end Cache.Accounted

end Accounted

/-- An entry that is not resolved has one timer, or `retrys` is -1 and nothing waits for a timer but what
the call under way is about to start one for. -/
def Watched (timers : List Nat) (watching : Option Nat) (e : Nat) (entry : ArpCacheEntry) : Prop :=
  timers.count e = 1 ∧ 0 ≤ entry.retrys ∧ entry.retrys < arpRetrys ∨
    timers.count e = 0 ∧ entry.retrys = -1 ∧ (entry.pending = [] ∨ watching = some e)

structure Cache.Attended (s : Cache) : Prop where
  watched : ∀ e < s.made, (s.entries e).state = .unresolved → Watched s.timers s.watching e (s.entries e)
  timers : ∀ e ∈ s.timers, e < s.made
  watching : ∀ e ∈ s.watching, e < s.made ∧ (s.entries e).state = .unresolved

variable {packet : Packet}

/-- The timer of an entry runs out, or the entry is to get one. -/
structure Cache.Unattended (s : Cache) (e : Nat) : Prop where
  others : ∀ f < s.made, f ≠ e → (s.entries f).state = .unresolved → Watched s.timers s.watching f (s.entries f)
  free : (s.entries e).state = .unresolved → s.timers.count e = 0 ∧ -1 ≤ (s.entries e).retrys
  timers : ∀ e ∈ s.timers, e < s.made
  watching : ∀ e ∈ s.watching, e < s.made ∧ (s.entries e).state = .unresolved

theorem Cache.Unattended.watchdog (unattended : s.Unattended e) (old : e < s.made) (step : WatchdogStep e s s') :
    s'.Attended := by
  have watching : ∀ entry : ArpCacheEntry, entry.state = .unresolved → ∀ f ∈ s.watching,
      f < s.made ∧ ((s.setEntry e entry).entries f).state = .unresolved := by
    intro entry unresolved f mem
    obtain ⟨bound, waiting⟩ := unattended.watching f mem
    refine ⟨bound, ?_⟩
    rw [setEntry_entries]
    split
    · exact unresolved
    · exact waiting
  cases step with
  | ignore resolved =>
    refine ⟨fun f bound waiting => ?_, unattended.timers, unattended.watching⟩
    refine unattended.others f bound ?_ waiting
    rintro rfl
    rw [resolved] at waiting
    contradiction
  | fail unresolved =>
    refine ⟨fun f bound waiting => ?_, unattended.timers, watching _ unresolved⟩
    by_cases mine : f = e
    · subst mine
      rw [Cache.complete, setEntry_self]
      exact .inr ⟨(unattended.free unresolved).1, rfl, .inl rfl⟩
    · rw [Cache.complete, setEntry_other _ mine] at waiting ⊢
      exact unattended.others f bound mine waiting
  | request unresolved more =>
    obtain ⟨none, least⟩ := unattended.free unresolved
    refine ⟨fun f bound waiting => ?_, fun f mem => ?_, watching _ unresolved⟩
    · dsimp only at waiting ⊢
      by_cases mine : f = e
      · subst mine
        rw [setEntry_self, Watched, count_cons_self, none]
        dsimp only
        exact .inl ⟨rfl, by omega, more⟩
      · rw [setEntry_other _ mine] at waiting ⊢
        rw [Watched, count_cons_of_ne (Ne.symm mine)]
        exact unattended.others f bound mine waiting
    · rcases mem_cons.mp mem with rfl | active
      · exact old
      · exact unattended.timers f active

theorem Watched.settled {timers : List Nat} {watching : Option Nat} (watched : Watched timers watching f entry)
    (other : watching ≠ some f) (next : Option Nat) :
    Watched timers next f entry :=
  watched.imp_right fun unwatched => ⟨unwatched.1, unwatched.2.1, unwatched.2.2.imp_right fun mine => absurd mine other⟩

namespace Cache.Attended

variable (attended : s.Attended)
include attended

theorem expire (active : e ∈ s.timers) :
    Cache.Unattended { s with timers := s.timers.erase e } e := by
  refine ⟨?_, ?_, ?_, attended.watching⟩
  · intro f bound other waiting
    have watched := attended.watched f bound waiting
    rw [Watched] at watched ⊢
    rwa [count_erase_of_ne other]
  · intro waiting
    have present := count_pos_iff.mpr active
    rcases attended.watched e (attended.timers e active) waiting with ⟨one, least, _⟩ | ⟨none, _⟩
    · refine ⟨?_, by dsimp only; omega⟩
      rw [count_erase_self, one]
    · omega
  · exact fun f mem => attended.timers f (mem_of_mem_erase mem)

theorem watch (mine : s.watching = some e) (idle : (s.entries e).retrys = -1) :
    Cache.Unattended { s with watching := none } e := by
  refine ⟨?_, ?_, attended.timers, nofun⟩
  · intro f bound other waiting
    refine (attended.watched f bound waiting).settled ?_ none
    rw [mine]
    exact fun same => other (Option.some.inj same).symm
  · intro waiting
    refine ⟨?_, Int.le_of_eq idle.symm⟩
    rcases attended.watched e (attended.watching e mine).1 waiting with ⟨_, least, _⟩ | ⟨none, _⟩
    · omega
    · exact none

theorem start (retrys : entry.retrys = -1) :
    Cache.Unattended (Cache.add entry { s with submitted }) s.made := by
  refine ⟨?_, ?_, fun f active => Nat.lt_succ_of_lt (attended.timers f active), ?_⟩
  · intro f bound other waiting
    have old : f < s.made := (Nat.le_of_lt_succ bound).lt_of_ne other
    rw [add_old _ old] at waiting ⊢
    exact attended.watched f old waiting
  · intro _
    rw [add_new, retrys]
    refine ⟨count_eq_zero.mpr fun active => ?_, Int.le_refl _⟩
    exact lt_irrefl _ (attended.timers _ active)
  · intro f mem
    obtain ⟨bound, waiting⟩ := attended.watching f mem
    refine ⟨Nat.lt_succ_of_lt bound, ?_⟩
    rw [add_old _ bound]
    exact waiting

theorem queue (free : s.watching = none) (old : e < s.made)
    (unresolved : (s.entries e).state = .unresolved) : (s.queue packet ip e).Attended := by
  refine ⟨fun f bound waiting => ?_, attended.timers, ?_⟩
  · by_cases mine : f = e
    · subst mine
      rw [queue_self]
      rcases attended.watched f old unresolved with watched | ⟨none, idle, _⟩
      · exact .inl watched
      · exact .inr ⟨none, idle, .inr rfl⟩
    · rw [queue_other _ ip mine] at waiting ⊢
      exact (attended.watched f bound waiting).settled (by rw [free]; nofun) _
  · rintro f ⟨⟩
    rw [queue_self]
    exact ⟨old, unresolved⟩

theorem step (filed : s.Filed) (enabled : arp.enabled event s = true) (step : ArpStep s event s') : s'.Attended := by
  cases step with
  | broadcast | direct => exact { attended with }
  | queue _ _ known unresolved =>
    exact attended.queue (Option.isNone_iff_eq_none.mp enabled) (filed.known known).1 unresolved
  | start _ _ _ _ made =>
    refine Unattended.watchdog ?_ (Nat.lt_succ_self _) (arpWatchdog_step _ _)
    exact attended.start made.2.2.1
  | watch idle =>
    have mine := of_decide_eq_true enabled
    exact (attended.watch mine idle).watchdog (attended.watching _ mine).1 (arpWatchdog_step _ _)
  | @watched e busy =>
    have mine : s.watching = some e := of_decide_eq_true enabled
    refine ⟨fun f bound waiting => ?_, attended.timers, nofun⟩
    have watched := attended.watched f bound waiting
    by_cases same : f = e
    · subst same
      exact .inl (watched.resolve_right fun idle => busy idle.2.1)
    · exact watched.settled (by rw [mine]; exact fun eq => same (Option.some.inj eq).symm) none
  | @resolve mac ip e _ _ =>
    have free : s.watching = none := Option.isNone_iff_eq_none.mp enabled
    refine ⟨fun f bound waiting => ?_, attended.timers, ?_⟩
    · by_cases mine : f = e
      · subst mine
        rw [Cache.complete, setEntry_self] at waiting
        contradiction
      · rw [Cache.complete, setEntry_other _ mine] at waiting ⊢
        exact attended.watched f bound waiting
    · intro f mem
      rw [Cache.complete, Cache.setEntry, free] at mem
      contradiction
  | known => exact attended
  | learn _ made =>
    refine ⟨fun f bound waiting => ?_, fun f active => Nat.lt_succ_of_lt (attended.timers f active), ?_⟩
    · rcases Nat.lt_succ_iff_lt_or_eq.mp bound with old | rfl
      · rw [add_old _ old] at waiting ⊢
        exact attended.watched f old waiting
      · rw [add_new, made.2] at waiting
        contradiction
    · intro f mem
      obtain ⟨bound, waiting⟩ := attended.watching f mem
      rw [add_old _ bound]
      exact ⟨Nat.lt_succ_of_lt bound, waiting⟩
  | expire active => exact (attended.expire active).watchdog (attended.timers _ active) (arpWatchdog_step _ _)

end Cache.Attended

def Cache.outcomes (s : Cache) (id : Nat) : List Packet := s.completed.filter (fun packet => packet.id = id)

inductive Cache.Place (s : Cache) (id : Nat) (ip : Ip) : Prop where
  | pending {e : Nat} (here : s.PendingOn id e) (address : (s.entries e).ip = ip)
      (once : ((s.entries e).pending.filter (fun packet => packet.id = id)).length = 1)
      (only : ∀ f, s.PendingOn id f → f = e) (outcome : s.outcomes id = [])
  | sent {e : Nat} {packet : Packet} (old : e < s.made) (address : (s.entries e).ip = ip)
      (resolved : (s.entries e).state = .resolved) (outcome : s.outcomes id = [packet])
      (result : packet.result = .success) (dst : packet.dst = .link (s.entries e).mac)
      (nowhere : ∀ f, ¬ s.PendingOn id f)
  | failed {packet : Packet} (outcome : s.outcomes id = [packet]) (result : packet.result = .unknownhost)
      (nowhere : ∀ f, ¬ s.PendingOn id f)

/-- No packet is lost, sent twice or left behind. -/
structure Cache.Resolves (s : Cache) : Prop where
  unique : ∀ e < s.made, ∀ f < s.made, (s.entries e).ip = (s.entries f).ip → e = f
  packets : ∀ id ip, s.submitted[id]? = some ip → ip ≠ ipBroadcast → s.Place id ip
  watched : ∀ e < s.made, (s.entries e).state = .unresolved → (s.entries e).pending ≠ [] →
    s.timers.count e = 1 ∧ 0 ≤ (s.entries e).retrys ∧ (s.entries e).retrys < arpRetrys
  idle : ∀ e < s.made, (s.entries e).state = .unresolved → s.timers.count e = 0 →
    (s.entries e).retrys = -1 ∧ (s.entries e).pending = []

structure Cache.Sound (s : Cache) : Prop where
  filed : s.Filed
  accounted : s.Accounted
  attended : s.Attended

theorem filter_id_eq {packets : List Packet} (once : (packets.map Packet.id).Nodup)
    (mem : packet ∈ packets) : packets.filter (fun other => other.id = packet.id) = [packet] := by
  induction packets with
  | nil => contradiction
  | cons first rest ih =>
    rw [map_cons, nodup_cons] at once
    rcases mem_cons.mp mem with rfl | later
    · have none : rest.filter (fun other => other.id = packet.id) = [] := by
        refine filter_eq_nil_iff.mpr fun other here => ?_
        simp only [decide_eq_true_eq]
        exact fun same => once.1 (same ▸ mem_map_of_mem here)
      simp [none]
    · have other : first.id ≠ packet.id := fun same => once.1 (same ▸ mem_map_of_mem later)
      simpa [other] using ih once.2 later

theorem Cache.outcomes_nil (absent : id ∉ s.completed.map Packet.id) : s.outcomes id = [] := by
  refine filter_eq_nil_iff.mpr fun packet mem => ?_
  simp only [decide_eq_true_eq]
  exact fun same => absent (same ▸ mem_map_of_mem mem)

namespace Cache.Sound

theorem step (sound : s.Sound) (enabled : arp.enabled event s = true) (step : ArpStep s event s') : s'.Sound :=
  ⟨sound.filed.step step,
    sound.accounted.step sound.filed sound.attended.timers (fun e mine => (sound.attended.watching e mine).1) enabled step,
    sound.attended.step sound.filed enabled step⟩

theorem init : arpInit.Sound :=
  ⟨⟨nofun, nofun, nofun⟩, ⟨nofun, nofun, nodup_nil, nofun⟩, ⟨nofun, nofun, nofun⟩⟩

theorem reached {allowed : Cache → ArpEvent → Prop} (path : arp.Reaches allowed arpInit s) : s.Sound :=
  path.preserves Cache.Sound init fun _ _ _ sound _ enabled ran => sound.step enabled (arp_step enabled ran)

theorem place (sound : s.Sound) (known : s.submitted[id]? = some ip) (other : ip ≠ ipBroadcast) :
    s.Place id ip := by
  have elsewhere : id ∈ s.completed.map Packet.id → ∀ f, ¬ s.PendingOn id f := by
    rintro done f ⟨bound, waiting, mem⟩
    obtain ⟨packet, queued, rfl⟩ := List.mem_map.mp mem
    exact (sound.accounted.waits f bound waiting).absent _ queued done
  rcases sound.accounted.found id (List.getElem?_eq_some_iff.mp known).1 with ⟨e, here⟩ | done
  · obtain ⟨bound, waiting, mem⟩ := here
    obtain ⟨packet, queued, rfl⟩ := List.mem_map.mp mem
    have waits := sound.accounted.waits e bound waiting
    have address := (waits.packets packet queued).2.1
    refine .pending ⟨bound, waiting, mem⟩ (Option.some.inj (address.symm.trans known)) ?_ ?_ ?_
    · rw [filter_id_eq waits.once queued]
      rfl
    · rintro f ⟨old, unresolved, again⟩
      obtain ⟨twin, here, same⟩ := List.mem_map.mp again
      have second := ((sound.accounted.waits f old unresolved).packets twin here).2.1
      rw [same, address] at second
      exact sound.filed.unique f old e bound (Option.some.inj second).symm
    · exact outcomes_nil (waits.absent _ queued)
  · have nowhere := elsewhere done
    obtain ⟨packet, mem, rfl⟩ := List.mem_map.mp done
    have outcome : s.outcomes packet.id = [packet] := filter_id_eq sound.accounted.once mem
    cases result : packet.result with
    | unknownhost => exact .failed outcome result nowhere
    | success =>
      obtain ⟨found, address, sent⟩ := sound.accounted.completed packet mem
      cases address.symm.trans known
      rcases sent result with ⟨broadcast, _⟩ | ⟨e, old, same, resolved, dst⟩
      · exact absurd broadcast other
      · exact .sent old same resolved outcome result dst nowhere

end Cache.Sound

/-- Whatever packets are sent, addresses learnt and timers expired, with no call under way every packet waits
for its address, or has been sent to it, or has been given up, and what waits is watched. -/
theorem arp_resolves {allowed : Cache → ArpEvent → Prop} {s : Cache} (path : arp.Reaches allowed arpInit s)
    (free : s.watching = none) : s.Resolves := by
  have sound := Cache.Sound.reached path
  refine ⟨sound.filed.unique, fun id ip known other => sound.place known other, ?_, ?_⟩
  · intro e bound waiting some
    rcases sound.attended.watched e bound waiting with watched | ⟨_, _, empty | mine⟩
    · exact watched
    · exact absurd empty some
    · rw [free] at mine
      contradiction
  · intro e bound waiting none
    rcases sound.attended.watched e bound waiting with ⟨one, _⟩ | ⟨_, idle, empty | mine⟩
    · omega
    · exact ⟨idle, empty⟩
    · rw [free] at mine
      contradiction

theorem arp_resolves_four : ∃ s, arp.Reaches (fun _ _ => True) arpInit s ∧ s.watching = none ∧
    s.submitted = [5, 6, 7, 7] ∧ s.completed.map Packet.result = [.success, .unknownhost] ∧ s.Resolves := by
  obtain ⟨s, reached, free, submitted, results⟩ : ∃ s, arp.Reaches (fun _ _ => True) arpInit s ∧ s.watching = none ∧
      s.submitted = [5, 6, 7, 7] ∧ s.completed.map result = [.success, .unknownhost] :=
    Machine.run_exists [.send 5, .send 6, .store 1 5, .expire 1, .expire 1, .expire 1, .expire 1, .expire 1, .send 7,
      .send 7, .watch 2] (by decide +kernel)
  exact ⟨s, reached, free, submitted, results, arp_resolves reached free⟩

def Cache.transmitted (s : Cache) (ip : Ip) : List Nat :=
  (s.completed.filter (fun packet => packet.result = .success ∧ s.submitted[packet.id]? = some ip)).map Packet.id

/-- Where an address is learnt that packets wait for, one does. -/
def Alone (s : Cache) : ArpEvent → Prop
  | .store _ ip => ∀ e, arpCacheFind ip s = some e → (s.entries e).state = .unresolved →
      (s.entries e).pending.length ≤ 1
  | _ => True

section

variable {more : List Ip} {done : List Packet}
include accounted

theorem Cache.Accounted.transmitted_later
    (submitted : s'.submitted = s.submitted ++ more) (completed : s'.completed = s.completed ++ done) (ip : Ip) :
    s'.transmitted ip = s.transmitted ip ++
      (done.filter (fun packet => packet.result = .success ∧ s'.submitted[packet.id]? = some ip)).map Packet.id := by
  have same : ∀ packet ∈ s.completed, s'.submitted[packet.id]? = s.submitted[packet.id]? := by
    intro packet mem
    rw [submitted, getElem?_append_left (accounted.completed_bound (mem_map_of_mem mem))]
  rw [transmitted, completed, filter_append, map_append, transmitted]
  congr 2
  exact filter_congr fun packet mem => by rw [same packet mem]

theorem Cache.Accounted.flush_transmitted (e : Nat) (entry : ArpCacheEntry)
    (done : List Packet) (ip : Ip) : ((s.setEntry e entry).complete done).transmitted ip = s.transmitted ip ++
      (done.filter (fun packet => packet.result = .success ∧ s.submitted[packet.id]? = some ip)).map Packet.id := by
  have submitted : ((s.setEntry e entry).complete done).submitted = s.submitted ++ [] := (append_nil _).symm
  exact accounted.transmitted_later submitted rfl ip

theorem Cache.Accounted.unsent (ordered : (s.transmitted ip).Pairwise (· < ·)) (submitted : s'.submitted = s.submitted ++ more)
    (completed : s'.completed = s.completed ++ done) (failed : ∀ packet ∈ done, packet.result = .unknownhost) :
    (s'.transmitted ip).Pairwise (· < ·) := by
  have none : done.filter (fun packet => packet.result = .success ∧ s'.submitted[packet.id]? = some ip) = [] := by
    refine filter_eq_nil_iff.mpr fun packet mem => ?_
    simp [failed _ mem]
  rw [accounted.transmitted_later submitted completed, none, map_nil, append_nil]
  exact ordered

theorem Cache.Accounted.transmitted_bound (sent : id ∈ s.transmitted ip) :
    id < s.submitted.length := by
  obtain ⟨packet, mem, rfl⟩ := mem_map.mp sent
  exact accounted.completed_bound (mem_map_of_mem (mem_of_mem_filter mem))

omit accounted in
theorem Cache.Sound.transmitted_nil (sound : s.Sound) (old : e < s.made)
    (unresolved : (s.entries e).state = .unresolved) : s.transmitted (s.entries e).ip = [] := by
  rw [transmitted, map_eq_nil_iff]
  refine filter_eq_nil_iff.mpr fun packet mem holds => ?_
  obtain ⟨result, address⟩ := of_decide_eq_true holds
  obtain ⟨ip, known, sent⟩ := sound.accounted.completed packet mem
  cases known.symm.trans address
  rcases sent result with ⟨broadcast, _⟩ | ⟨f, bound, same, resolved, _⟩
  · exact (sound.accounted.waits e old unresolved).ip broadcast
  · cases sound.filed.unique f bound e old same
    rw [unresolved] at resolved
    contradiction

theorem Cache.Accounted.watchdog_ordered (ordered : (s.transmitted ip).Pairwise (· < ·))
    (step : WatchdogStep e s s') : (s'.transmitted ip).Pairwise (· < ·) := by
  cases step with
  | ignore | request => exact ordered
  | fail =>
    refine accounted.unsent ordered (append_nil _).symm rfl fun packet mem => ?_
    obtain ⟨_, _, rfl⟩ := mem_map.mp mem
    rfl

theorem Cache.Accounted.send_ordered {dst : Ip}
    (id : packet.id = s.submitted.length) (ordered : (s.transmitted ip).Pairwise (· < ·)) :
    (Cache.transmitted (Cache.complete [packet] { s with submitted := s.submitted ++ [dst] }) ip).Pairwise (· < ·) := by
  rw [accounted.transmitted_later rfl rfl]
  refine pairwise_append.mpr ⟨ordered, ?_, ?_⟩
  · exact (pairwise_singleton _ packet.id).sublist (filter_sublist.map Packet.id)
  · intro _ sent _ new
    obtain ⟨last, mem, rfl⟩ := mem_map.mp new
    rw [mem_singleton.mp (mem_of_mem_filter mem), id]
    exact accounted.transmitted_bound sent

end

theorem transmitted_step (sound : s.Sound) (ordered : ∀ ip, (s.transmitted ip).Pairwise (· < ·)) (alone : Alone s event)
    (step : ArpStep s event s') : ∀ ip, (s'.transmitted ip).Pairwise (· < ·) := by
  intro ip
  have accounted := sound.accounted
  cases step with
  | broadcast id | direct id => exact accounted.send_ordered id (ordered ip)
  | queue =>
    exact accounted.unsent (ordered ip) rfl (append_nil _).symm nofun
  | start id result other _ made =>
    obtain ⟨rfl, unresolved, _, pending⟩ := made
    refine (accounted.start id result other unresolved pending).watchdog_ordered ?_ (arpWatchdog_step _ _)
    exact accounted.unsent (ordered ip) rfl (append_nil _).symm nofun
  | watch =>
    have same : Cache.Accounted { s with watching := none } := accounted.same rfl rfl rfl fun _ => ⟨_, rfl⟩
    exact same.watchdog_ordered (ordered ip) (arpWatchdog_step _ _)
  | watched | known | learn => exact ordered ip
  | @resolve mac dst e known unresolved =>
    obtain ⟨old, _⟩ := sound.filed.known known
    have waits := accounted.waits e old unresolved
    have single := alone e known unresolved
    rw [accounted.flush_transmitted]
    by_cases mine : ip = (s.entries e).ip
    · subst mine
      rw [sound.transmitted_nil old unresolved, nil_append]
      refine List.Pairwise.sublist (filter_sublist.map Packet.id) ?_
      cases content : (s.entries e).pending with
      | nil => simp
      | cons _ rest =>
        cases rest with
        | nil => simp
        | cons => simp [content] at single
    · -- The packets that leave are for another address.
      have none : ((s.entries e).pending.map (Packet.resolve mac)).filter (fun packet => packet.result = .success ∧
          s.submitted[packet.id]? = some ip) = [] := by
        refine filter_eq_nil_iff.mpr fun packet mem holds => ?_
        obtain ⟨queued, waiting, rfl⟩ := mem_map.mp mem
        obtain ⟨_, address⟩ := of_decide_eq_true holds
        have for_e := (waits.packets queued waiting).2.1
        exact mine (Option.some.inj (address.symm.trans for_e))
      rw [none, map_nil, append_nil]
      exact ordered ip
  | @expire e _ =>
    have same : Cache.Accounted { s with timers := s.timers.erase e } := accounted.same rfl rfl rfl fun _ => ⟨_, rfl⟩
    exact same.watchdog_ordered (ordered ip) (arpWatchdog_step _ _)

/-- Packets to an address are sent in the order in which they were submitted, where no two of them have been
waiting when the address was learnt. -/
theorem arp_keeps_order {s : Cache} (path : arp.Reaches Alone arpInit s) (ip : Ip) :
    (s.transmitted ip).Pairwise (· < ·) := by
  have both : s.Sound ∧ ∀ ip, (s.transmitted ip).Pairwise (· < ·) := by
    refine path.preserves (fun s => s.Sound ∧ ∀ ip, (s.transmitted ip).Pairwise (· < ·)) ?_ ?_
    · exact ⟨Cache.Sound.init, fun _ => List.Pairwise.nil⟩
    · intro before event after both alone enabled ran
      have step := arp_step enabled ran
      exact ⟨both.1.step enabled step, transmitted_step both.1 both.2 alone step⟩
  exact both.2 ip

instance (s : Cache) : DecidablePred (Alone s)
  | .store _ ip => inferInstanceAs (Decidable (∀ e ∈ arpCacheFind ip s, _ → _))
  | .send .. | .watch .. | .expire .. => .isTrue trivial

theorem arp_keeps_order_three : ∃ s, arp.Reaches Alone arpInit s ∧ s.transmitted 5 = [0, 2, 3] ∧
    (s.transmitted 5).Pairwise (· < ·) := by
  obtain ⟨s, reached, sent⟩ : ∃ s, arp.Reaches Alone arpInit s ∧ s.transmitted 5 = [0, 2, 3] :=
    Machine.run_exists [.send 5, .send 6, .store 1 5, .send 5, .send 5] (by decide +kernel)
  exact ⟨s, reached, sent, arp_keeps_order reached 5⟩

/-- Two packets wait when their address is learnt: the second one is sent first. -/
theorem arp_reverses_order : ∃ s, arp.Reaches (fun _ _ => True) arpInit s ∧ s.transmitted 5 = [1, 0] ∧
    ¬ (s.transmitted 5).Pairwise (· < ·) :=
  Machine.run_exists [.send 5, .send 5, .watch 0, .store 1 5] (by decide +kernel)

end KOs.Net.Arp

import KOs.Device.Registry

namespace KOs.Device

open KOs.Common KOs.Data Function List

def Head.bus {β : Type u} : Head β → β
  | .devices bus => bus
  | .unidentDevices bus => bus

structure Sorted {β : Type u} {δ : Type v} {ρ : Type w} (hardware : Hardware β δ ρ) (registry : Registry β δ ρ)
    (lists : Head β → List δ) : Prop where
  holds : registry.links.Represents {head | head.bus ∈ registry.buses} lists
  own : ∀ head, ∀ device ∈ lists head, hardware.deviceBus device = head.bus

variable {β : Type u} {δ : Type v} {ρ : Type w} {hardware : Hardware β δ ρ} {bound : Nat}
variable {registry after : Registry β δ ρ} {lists : Head β → List δ}

section Walk

variable [DecidableEq β] [DecidableEq δ] {driver : ρ} {bus : β}

theorem identify_skips {items : List δ} {first stop last : Head β ⊕ δ}
    (chained : registry.links.Segment first (items.map .inr) stop)
    (refused : ∀ device ∈ items, hardware.accepts device driver = false) (apart : ∀ device ∈ items, last ≠ .inr device)
    (rest : Nat) :
    whileLoop (fun state => state.1 ≠ last) (identifyDevice hardware driver) .unfinished (items.length + rest)
        ((registry.links first).next, registry) =
      whileLoop (fun state => state.1 ≠ last) (identifyDevice hardware driver) .unfinished rest (stop, registry) := by
  induction items generalizing first with
  | nil =>
    have next : (registry.links first).next = stop := chained.1
    rw [next, length_nil, zero_add]
  | cons device _ ih =>
    obtain ⟨⟨next, _⟩, chained⟩ := chained
    have enters : (Sum.inr device : Head β ⊕ δ) ≠ last := (apart device mem_cons_self).symm
    have turn : identifyDevice hardware driver (.inr device, registry) =
        .ok ((registry.links (.inr device)).next, registry) := by
      simp [identifyDevice, refused _ _]
    rw [next, length_cons, Nat.add_right_comm, whileLoop_turns (by simpa using enters) turn]
    exact ih chained (fun other mem => refused other (mem_cons_of_mem _ mem))
      fun other mem => apart other (mem_cons_of_mem _ mem)

def Astray (hardware : Hardware β δ ρ) (bus : β) (state : (Head β ⊕ δ) × Registry β δ ρ) : Prop :=
  ∃ lists, Sorted hardware state.2 lists ∧
    (state.1 = .inl (.devices bus) ∨ ∃ device ∈ lists (.devices bus), state.1 = .inr device)

variable {device : δ} {next : (Head β ⊕ δ) × Registry β δ ρ} {buses : List β}

variable (sorted : Sorted hardware registry lists)
include sorted

/-- A device of the bus that the driver takes is moved to the bound ones, and the walk goes on there. -/
theorem accepted_astray {head : Head β} (mem : device ∈ lists head) (accepted : hardware.accepts device driver = true)
    (ran : identifyDevice hardware driver (.inr device, registry) = .ok next) : Astray hardware head.bus next := by
  have home : hardware.deviceBus device = head.bus := sorted.own head device mem
  have registered : head.bus ∈ registry.buses := sorted.holds.head_of_mem mem
  have inside : Head.devices head.bus ∈ {other : Head β | other.bus ∈ registry.buses} := registered
  obtain ⟨moved, holds, placed⟩ := listMove_placed sorted.holds mem inside
  simp only [identifyDevice, accepted, if_true, home] at ran
  cases ran
  have first : device ∈ moved (.devices head.bus) := (placed _ _).mpr (by simp)
  refine ⟨moved, ⟨holds, ?_⟩, ?_⟩
  · intro other entry inside
    have before := (placed other entry).mp inside
    split at before
    next same =>
      rw [before, same]
      exact home
    · exact sorted.own _ _ before
  · exact holds.next_item first

omit sorted in
theorem astray_step {state : (Head β ⊕ δ) × Registry β δ ρ} (astray : Astray hardware bus state)
    (ran : identifyDevice hardware driver state = .ok next) : Astray hardware bus next := by
  obtain ⟨node, registry⟩ := state
  obtain ⟨lists, sorted, atHead | ⟨device, mem, atDevice⟩⟩ := astray
  · cases atHead
    contradiction
  · cases atDevice
    cases accepted : hardware.accepts device driver with
    | true => exact accepted_astray sorted mem accepted ran
    | false =>
      simp only [identifyDevice, accepted] at ran
      cases ran
      exact ⟨lists, sorted, sorted.holds.next_item mem⟩

theorem identifyDevices_quiet (inside : bus ∈ registry.buses)
    (refused : ∀ device ∈ lists (.unidentDevices bus), hardware.accepts device driver = false)
    (enough : (lists (.unidentDevices bus)).length < bound) : identifyDevices hardware bound driver bus registry = .ok registry := by
  obtain ⟨_, rfl⟩ := Nat.exists_eq_add_of_lt enough
  have chained := sorted.holds.ring (.unidentDevices bus) inside
  rw [identifyDevices, listFirst, add_assoc, identify_skips chained refused (by simp), whileLoop_stops (by simp)]
  rfl

theorem identifyDevices_stuck
    (mem : device ∈ lists (.unidentDevices bus)) (accepted : hardware.accepts device driver = true) :
    identifyDevices hardware bound driver bus registry ≠ .ok after := by
  intro returned
  have registered : bus ∈ registry.buses := sorted.holds.head_of_mem mem
  -- the first device of the list that the driver takes
  obtain ⟨found, search⟩ := Option.isSome_iff_exists.mp (find?_isSome.mpr ⟨device, mem, accepted⟩ :
      ((lists (.unidentDevices bus)).find? fun device => hardware.accepts device driver).isSome)
  obtain ⟨taken, before, behind, content, refused⟩ := find?_eq_some_iff_append.mp search
  have chained := sorted.holds.ring (.unidentDevices bus) registered
  rw [content, map_append, map_cons, Links.segment_append] at chained
  obtain ⟨final, ran, _⟩ := map_returns returned
  have longer := whileLoop_more (Nat.le_add_left bound before.length) ran
  rw [listFirst, identify_skips chained.1 (by simpa using refused) (by simp)] at longer
  cases bound with
  | zero => contradiction
  | succ =>
    cases turned : identifyDevice hardware driver (.inr found, registry) with
    | error => simp [whileLoop, turned] at longer
    | ok =>
      rw [whileLoop_turns (by simp) turned] at longer
      have lost := accepted_astray sorted (content ▸ by simp : found ∈ lists (.unidentDevices bus)) taken turned
      refine whileLoop_trapped lost ?_ (fun _ _ => astray_step) longer
      rintro ⟨node, registry⟩ ⟨_, _, atHead | ⟨_, _, atDevice⟩⟩
      · simp [show node = _ from atHead, Head.bus]
      · simp [show node = _ from atDevice]

omit sorted in
theorem identifyDevices_more {more : Nat} (larger : bound ≤ more)
    (returned : identifyDevices hardware bound driver bus registry = .ok after) :
    identifyDevices hardware more driver bus registry = .ok after := by
  obtain ⟨final, ran, rfl⟩ := map_returns returned
  rw [identifyDevices, whileLoop_more larger ran]
  rfl

theorem identifyDevices_returns (inside : bus ∈ registry.buses)
    (returned : identifyDevices hardware bound driver bus registry = .ok after) :
    (∀ device ∈ lists (.unidentDevices bus), hardware.accepts device driver = false) ∧ after = registry := by
  have refused : ∀ device ∈ lists (.unidentDevices bus), hardware.accepts device driver = false := by
    intro device mem
    by_contra accepted
    exact identifyDevices_stuck sorted mem (by simpa using accepted) returned
  refine ⟨refused, ?_⟩
  have longer := identifyDevices_more (Nat.le_add_right bound ((lists (.unidentDevices bus)).length + 1)) returned
  rw [identifyDevices_quiet sorted inside refused (by omega)] at longer
  exact (Except.ok.inj longer).symm

def Quiet (hardware : Hardware β δ ρ) (driver : ρ) (lists : Head β → List δ) (buses : List β) : Prop :=
  ∀ bus ∈ buses, ∀ device ∈ lists (.unidentDevices bus), hardware.accepts device driver = false

theorem identifyAll_quiet (inside : ∀ bus ∈ buses, bus ∈ registry.buses) (quiet : Quiet hardware driver lists buses) :
    ∃ enough, ∀ bound, enough ≤ bound → identifyAll hardware bound driver buses registry = .ok registry := by
  induction buses with
  | nil => exact ⟨0, fun _ _ => rfl⟩
  | cons bus _ ih =>
    obtain ⟨here, others⟩ := forall_mem_cons.mp quiet
    obtain ⟨registered, inside⟩ := forall_mem_cons.mp inside
    obtain ⟨enough, rest⟩ := ih inside others
    refine ⟨max enough ((lists (.unidentDevices bus)).length + 1), fun bound large => ?_⟩
    have first : identifyDevices hardware bound driver bus registry = .ok registry :=
      identifyDevices_quiet sorted registered here (by omega)
    simp only [identifyAll, first, rest bound (by omega)]

theorem identifyAll_returns (inside : ∀ bus ∈ buses, bus ∈ registry.buses)
    (returned : identifyAll hardware bound driver buses registry = .ok after) :
    Quiet hardware driver lists buses ∧ after = registry := by
  induction buses with
  | nil =>
    cases returned
    exact ⟨by simp [Quiet], rfl⟩
  | cons bus _ ih =>
    obtain ⟨registered, inside⟩ := forall_mem_cons.mp inside
    cases ran : identifyDevices hardware bound driver bus registry with
    | error => simp [identifyAll, ran] at returned
    | ok =>
      obtain ⟨here, rfl⟩ := identifyDevices_returns sorted registered ran
      simp only [identifyAll, ran] at returned
      obtain ⟨others, same⟩ := ih inside returned
      exact ⟨forall_mem_cons.mpr ⟨here, others⟩, same⟩

def addDriver (hardware : Hardware β δ ρ) (driver : ρ) (registry : Registry β δ ρ) : Registry β δ ρ :=
  { registry with
    drivers := Function.update registry.drivers (hardware.driverBus driver)
      (driver :: registry.drivers (hardware.driverBus driver)) }

theorem registerDriver_quiet (quiet : Quiet hardware driver lists registry.buses) :
    ∃ enough, ∀ bound, enough ≤ bound → registerDriver hardware bound driver registry = .ok (addDriver hardware driver registry) :=
  identifyAll_quiet (show Sorted _ (addDriver _ _ _) _ from ⟨sorted.holds, sorted.own⟩) (fun _ mem => mem) quiet

theorem registerDriver_returns (returned : registerDriver hardware bound driver registry = .ok after) :
    Quiet hardware driver lists registry.buses ∧ after = addDriver hardware driver registry :=
  identifyAll_returns (show Sorted _ (addDriver _ _ _) _ from ⟨sorted.holds, sorted.own⟩) (fun _ mem => mem) returned

end Walk

section Runs

variable [DecidableEq β] [DecidableEq δ] {calls done : List (Call δ ρ)}

def placeOf (bus : β) : Option ρ → Head β
  | some _ => .devices bus
  | none => .unidentDevices bus

omit [DecidableEq β] in
@[simp] theorem placeOf_bus (bus : β) (driver : Option ρ) : (placeOf bus driver).bus = bus := by
  cases driver <;> rfl

structure Processed (hardware : Hardware β δ ρ) (done : List (Call δ ρ)) (registry : Registry β δ ρ)
    (lists : Head β → List δ) : Prop where
  holds : registry.links.Represents {head | head.bus ∈ registry.buses} lists
  drivers : ∀ bus driver, driver ∈ registry.drivers bus ↔ .driver driver ∈ done ∧ hardware.driverBus driver = bus
  placed : ∀ head device, device ∈ lists head ↔
    .device device ∈ done ∧ head = placeOf (hardware.deviceBus device) (registry.driver device)
  fresh : ∀ device, .device device ∉ done → registry.driver device = none
  matched : ∀ device driver, registry.driver device = some driver → hardware.accepts device driver = true ∧
    hardware.driverBus driver = hardware.deviceBus device ∧ List.Sublist [.driver driver, .device device] done
  missed : ∀ device driver, .device device ∈ done → registry.driver device = none → .driver driver ∈ done →
    hardware.driverBus driver = hardware.deviceBus device → hardware.accepts device driver = false
  enabled : ∀ device, registry.enabled.filter (fun call => call.1 = device) =
    ((registry.driver device).map fun driver => (device, driver)).toList

section

variable (processed : Processed hardware done registry lists)
include processed

omit [DecidableEq β] in
theorem Processed.sorted : Sorted hardware registry lists := by
  refine ⟨processed.holds, fun head device mem => ?_⟩
  rw [((processed.placed head _).mp mem).2, placeOf_bus]

def chosen (hardware : Hardware β δ ρ) (device : δ) (registry : Registry β δ ρ) : Option ρ :=
  (registry.drivers (hardware.deviceBus device)).find? (hardware.accepts device)

structure DeviceAdded (hardware : Hardware β δ ρ) (device : δ) (before after : Registry β δ ρ) : Prop where
  buses : after.buses = before.buses
  drivers : after.drivers = before.drivers
  driver : after.driver = Function.update before.driver device (chosen hardware device before)
  links : after.links =
    listAdd (.inr device) (.inl (placeOf (hardware.deviceBus device) (chosen hardware device before))) before.links
  enabled : after.enabled = ((chosen hardware device before).map fun driver => (device, driver)).toList ++ before.enabled

omit processed in
theorem registerDevice_added (device : δ) : DeviceAdded hardware device registry (registerDevice hardware device registry) := by
  cases search : (registry.drivers (hardware.deviceBus device)).find? (hardware.accepts device) with
  | none => constructor <;> simp [registerDevice, search, chosen, placeOf]
  | some => constructor <;> simp [registerDevice, search, chosen, placeOf, bindDevice]

theorem Processed.device {device : δ} (new : .device device ∉ done)
    (registered : hardware.deviceBus device ∈ registry.buses) :
    ∃ lists, Processed hardware (done ++ [.device device]) (registerDevice hardware device registry) lists := by
  have added : DeviceAdded hardware device registry _ := registerDevice_added device
  have free : ∀ head, device ∉ lists head := fun head mem => new ((processed.placed head device).mp mem).1
  obtain ⟨after, holds, moved⟩ := listAdd_placed processed.holds
    (show placeOf _ _ ∈ {head | head.bus ∈ registry.buses} by
      simpa using registered) free
  refine ⟨after, ?_, ?_, ?_, ?_, ?_, ?_, ?_⟩
  · rw [added.links, added.buses]
    exact holds
  · intro bus _
    rw [added.drivers, processed.drivers]
    simp
  · intro head other
    rw [moved, added.driver]
    by_cases same : other = device
    · subst same
      simp
    · simp [same, processed.placed]
  · intro other absent
    have apart : other ≠ device := by
      rintro rfl
      simp at absent
    rw [added.driver, update_of_ne apart]
    exact processed.fresh _ (by simp_all)
  · intro other driver
    rw [added.driver]
    by_cases same : other = device
    · subst same
      rw [update_self]
      intro found
      obtain ⟨known, home⟩ := (processed.drivers _ driver).mp (mem_of_find?_eq_some found)
      exact ⟨find?_some found, home, (singleton_sublist.mpr known).append (List.Sublist.refl [Call.device _])⟩
    · rw [update_of_ne same]
      intro found
      obtain ⟨accepted, home, order⟩ := processed.matched other driver found
      exact ⟨accepted, home, order.trans (sublist_append_left _ _)⟩
  · intro other driver
    rw [added.driver]
    by_cases same : other = device
    · subst same
      rw [update_self]
      intro _ found known home
      have mem : driver ∈ registry.drivers (hardware.deviceBus other) :=
        (processed.drivers _ _).mpr ⟨by simpa using known, home⟩
      simpa using find?_eq_none.mp found _ mem
    · rw [update_of_ne same]
      intro present found known home
      exact processed.missed _ _ (by simpa [same] using present) found (by simpa using known) home
  · intro other
    rw [added.enabled, added.driver, filter_append, processed.enabled]
    by_cases same : other = device
    · subst same
      rw [update_self, processed.fresh _ new]
      cases chosen hardware other registry <;> simp
    · rw [update_of_ne same]
      cases chosen hardware device registry <;> simp [Ne.symm same]

theorem Processed.driver {driver : ρ}
    (buses : ∀ device, .device device ∈ done → hardware.deviceBus device ∈ registry.buses)
    (quiet : Quiet hardware driver lists registry.buses) :
    Processed hardware (done ++ [.driver driver]) (addDriver hardware driver registry) lists := by
  have present : ∀ device, Call.device device ∈ done ++ [.driver driver] ↔ Call.device device ∈ done := by simp
  refine ⟨processed.holds, ?_, ?_, ?_, ?_, ?_, processed.enabled⟩
  · intro bus other
    by_cases here : bus = hardware.driverBus driver
    · subst here
      simp only [addDriver, update_self, mem_cons, processed.drivers, mem_append, Call.driver.injEq]
      by_cases same : other = driver
      · simp [same]
      · simp [same]
    · have _ : other = driver → hardware.driverBus other ≠ bus := by
        rintro rfl home
        exact here home.symm
      simp only [addDriver, update_of_ne here, processed.drivers, mem_append, mem_singleton, Call.driver.injEq]
      by_cases same : other = driver
      · simp [same, Ne.symm here]
      · simp [same]
  · intro head device
    rw [present]
    exact processed.placed head _
  · intro device absent
    exact processed.fresh _ fun mem => absent ((present _).mpr mem)
  · intro device other found
    obtain ⟨accepted, home, order⟩ := processed.matched device other found
    exact ⟨accepted, home, order.trans (sublist_append_left _ _)⟩
  · intro device other mem found known home
    rw [present] at mem
    rcases mem_append.mp known with before | last
    · exact processed.missed _ _ mem found before home
    · cases mem_singleton.mp last
      have unbound : registry.driver device = none := found
      exact quiet _ (buses _ mem) _ ((processed.placed _ _).mpr ⟨mem, by rw [unbound]; rfl⟩)

def Call.bus (hardware : Hardware β δ ρ) : Call δ ρ → β
  | .device item => hardware.deviceBus item
  | .driver item => hardware.driverBus item

/-- A driver is registered before the devices that it takes, and it is one of their bus. -/
def DriversFirst (hardware : Hardware β δ ρ) (calls : List (Call δ ρ)) : Prop :=
  ∀ device driver, .device device ∈ calls → .driver driver ∈ calls → hardware.accepts device driver = true →
    hardware.driverBus driver = hardware.deviceBus device ∧ List.Sublist [.driver driver, .device device] calls

/-- Every device that a driver takes is bound to it and was enabled once, and the lists of a bus hold
the devices with and without such a driver, whatever the order of the calls was. -/
structure Settled (hardware : Hardware β δ ρ) (calls : List (Call δ ρ)) (registry : Registry β δ ρ) : Prop where
  contents : ∃ lists, registry.links.Represents {head | head.bus ∈ registry.buses} lists ∧
    (∀ bus device, device ∈ lists (.devices bus) ↔ .device device ∈ calls ∧ hardware.deviceBus device = bus ∧
      ∃ driver, .driver driver ∈ calls ∧ hardware.accepts device driver = true) ∧
    ∀ bus device, device ∈ lists (.unidentDevices bus) ↔ .device device ∈ calls ∧ hardware.deviceBus device = bus ∧
      ¬ ∃ driver, .driver driver ∈ calls ∧ hardware.accepts device driver = true
  bound : ∀ device driver, .device device ∈ calls → .driver driver ∈ calls → hardware.accepts device driver = true →
    registry.driver device = some driver ∧ registry.enabled.filter (fun call => call.1 = device) = [(device, driver)]

theorem Processed.perform {call : Call δ ρ}
    (once : (done ++ [call] ++ calls).Nodup) (buses : ∀ other ∈ done ++ [call] ++ calls, other.bus hardware ∈ registry.buses)
    (ran : perform hardware bound call registry = .ok after) :
    (∃ lists, Processed hardware (done ++ [call]) after lists) ∧ after.buses = registry.buses := by
  have new : call ∉ done := by
    have apart := (nodup_append.mp (nodup_append.mp once).1).2.2
    exact fun mem => apart call mem call mem_cons_self rfl
  cases call with
  | device device =>
    cases ran
    exact ⟨processed.device new (buses (.device device) (by simp)), (registerDevice_added device).buses⟩
  | driver =>
    obtain ⟨quiet, rfl⟩ := registerDriver_returns processed.sorted ran
    exact ⟨⟨lists, processed.driver (fun device mem => buses (.device device) (by simp [mem])) quiet⟩, rfl⟩

theorem register_processed (once : (done ++ calls).Nodup)
    (buses : ∀ call ∈ done ++ calls, call.bus hardware ∈ registry.buses)
    (returned : register hardware bound calls registry = .ok after) :
    ∃ lists, Processed hardware (done ++ calls) after lists := by
  induction calls generalizing done registry lists with
  | nil =>
    cases returned
    exact ⟨lists, by simpa using processed⟩
  | cons call _ ih =>
    rw [append_cons] at once buses ⊢
    cases ran : perform hardware bound call registry with
    | error => simp [register, ran] at returned
    | ok =>
      simp only [register, ran] at returned
      obtain ⟨⟨_, further⟩, same⟩ := processed.perform once buses ran
      exact ih further once (same ▸ buses) returned

omit processed in
theorem sublist_antisymm {α : Type u} {items : List α} {a b : α} (distinct : items.Nodup) (forward : List.Sublist [a, b] items)
    (backward : List.Sublist [b, a] items) : False := by
  induction items with
  | nil => simp at forward
  | cons _ _ ih =>
    obtain ⟨apart, distinct⟩ := nodup_cons.mp distinct
    rcases sublist_cons_iff.mp forward with later | ⟨_, same, rest⟩
    · rcases sublist_cons_iff.mp backward with earlier | ⟨_, other, _⟩
      · exact ih distinct later earlier
      · cases other
        exact apart (later.subset (mem_cons_of_mem _ mem_cons_self))
    · cases same
      rcases sublist_cons_iff.mp backward with earlier | ⟨_, other, _⟩
      · exact apart (earlier.subset (mem_cons_of_mem _ mem_cons_self))
      · cases other
        exact apart (rest.subset mem_cons_self)

theorem register_returns (once : (done ++ calls).Nodup)
    (buses : ∀ call ∈ done ++ calls, call.bus hardware ∈ registry.buses) (ordered : DriversFirst hardware (done ++ calls)) :
    ∃ enough, ∀ bound, enough ≤ bound → ∃ after, register hardware bound calls registry = .ok after := by
  induction calls generalizing done registry lists with
  | nil => exact ⟨0, fun _ _ => ⟨registry, rfl⟩⟩
  | cons call calls ih =>
    rw [append_cons] at once buses ordered
    cases call with
    | device device =>
      obtain ⟨⟨_, further⟩, same⟩ := processed.perform once buses
        (show perform _ 0 (.device _) _ = .ok _ from rfl)
      exact ih further once (same ▸ buses) ordered
    | driver driver =>
      have quiet : Quiet hardware driver lists registry.buses := by
        intro bus _ device mem
        by_contra accepted
        have present : .device device ∈ done := ((processed.placed _ device).mp mem).1
        have order := (ordered device driver (by simp [present]) (by simp) (by simpa using accepted)).2
        have reversed : List.Sublist [Call.device device, .driver driver] (done ++ [.driver driver] ++ calls) :=
          ((singleton_sublist.mpr present).append (List.Sublist.refl [Call.driver _])).trans
            (sublist_append_left _ _)
        exact sublist_antisymm once order reversed
      obtain ⟨first, walks⟩ := registerDriver_quiet processed.sorted quiet
      obtain ⟨⟨_, further⟩, same⟩ := processed.perform once buses (walks first le_rfl)
      obtain ⟨enough, rest⟩ := ih further once (same ▸ buses) ordered
      refine ⟨max first enough, fun bound large => ?_⟩
      obtain ⟨after, ran⟩ := rest bound (by omega)
      exact ⟨after, by simp only [register, perform, walks bound (by omega), ran]⟩

end

def OneDriver (hardware : Hardware β δ ρ) (calls : List (Call δ ρ)) : Prop :=
  ∀ device driver other, .device device ∈ calls → .driver driver ∈ calls → .driver other ∈ calls →
    hardware.accepts device driver = true → hardware.accepts device other = true → driver = other

omit [DecidableEq β] in
theorem Processed.settled (processed : Processed hardware calls registry lists) (single : OneDriver hardware calls)
    (ordered : DriversFirst hardware calls) : Settled hardware calls registry := by
  have found : ∀ device driver, .device device ∈ calls → .driver driver ∈ calls → hardware.accepts device driver = true →
      registry.driver device = some driver := by
    intro device driver present known accepted
    cases bound : registry.driver device with
    | none =>
      have refused := processed.missed device driver present bound known (ordered device driver present known accepted).1
      exact absurd accepted (by simp [refused])
    | some other =>
      obtain ⟨taken, _, order⟩ := processed.matched device other bound
      rw [single _ _ _ present known (order.subset (by simp)) accepted taken]
  have served : ∀ device, .device device ∈ calls →
      ((∃ driver, .driver driver ∈ calls ∧ hardware.accepts device driver = true) ↔ (registry.driver device).isSome) := by
    intro device present
    constructor
    · rintro ⟨driver, known, accepted⟩
      simp [found _ _ present known accepted]
    · intro some
      obtain ⟨driver, bound⟩ := Option.isSome_iff_exists.mp some
      obtain ⟨taken, _, order⟩ := processed.matched device driver bound
      exact ⟨driver, order.subset (by simp), taken⟩
  refine ⟨⟨lists, processed.holds, fun bus device => ?_, fun bus device => ?_⟩, fun device driver present known accepted => ?_⟩
  iterate 2
    rw [processed.placed]
    refine and_congr_right fun present => ?_
    rw [served _ present]
    cases registry.driver device <;> simp [placeOf, eq_comm]
  have bound := found device driver present known accepted
  exact ⟨bound, by simp [processed.enabled, bound]⟩

theorem withBuses_eq (buses : List β) (links : Links (Head β ⊕ δ)) :
    ∃ cells, (withBuses buses links : Registry β δ ρ) = { blank cells with buses := buses } ∧
      cells.Represents {head | head.bus ∈ buses} fun _ => [] := by
  induction buses with
  | nil => exact ⟨links, rfl, by simp, by simp, by simp, by simp⟩
  | cons bus buses ih =>
    obtain ⟨cells, same, holds⟩ := ih
    have both := listInit_represents (listInit_represents holds (.devices bus)) (.unidentDevices bus)
    refine ⟨listInit (.inl (.unidentDevices bus)) (listInit (.inl (.devices bus)) cells), ?_, ?_⟩
    · have step : (withBuses (bus :: buses) _ : Registry β δ ρ) = registerBus bus (withBuses _ links) := rfl
      rw [step, same]
      simp [registerBus, blank]
    · have heads : insert (Head.unidentDevices bus) (insert (Head.devices bus) {head : Head β | head.bus ∈ buses}) =
          {head | head.bus ∈ bus :: buses} := by
        ext head
        cases head <;> simp [Head.bus]
      simpa [heads] using both

theorem withBuses_processed (buses : List β) (links : Links (Head β ⊕ δ)) :
    Processed hardware [] (withBuses buses links) fun _ => [] := by
  obtain ⟨cells, same, holds⟩ := withBuses_eq (ρ := ρ) buses links
  rw [same]
  constructor
  · exact holds
  all_goals simp [blank]

/-- Once a device is registered before the driver that takes it, `register_driver` does not return; and
a driver of another bus only finds the devices that are there already. -/
theorem binding_settles_iff (hardware : Hardware β δ ρ) (buses : List β) (links : Links (Head β ⊕ δ)) (calls : List (Call δ ρ))
    (once : calls.Nodup) (onBuses : ∀ call ∈ calls, call.bus hardware ∈ buses) (single : OneDriver hardware calls) :
    (∃ bound registry, register hardware bound calls (withBuses buses links) = .ok registry ∧ Settled hardware calls registry) ↔
      DriversFirst hardware calls := by
  have start : Processed hardware [] (withBuses buses links) fun _ => [] := withBuses_processed buses links
  obtain ⟨_, same, _⟩ := withBuses_eq (ρ := ρ) buses links
  have registered : ∀ call ∈ [] ++ calls, call.bus hardware ∈ (withBuses buses links : Registry β δ ρ).buses := by
    rw [same]
    exact onBuses
  constructor
  · rintro ⟨bound, registry, returned, settled⟩ device driver present known accepted
    obtain ⟨_, processed⟩ := register_processed start once registered returned
    obtain ⟨_, home, order⟩ := processed.matched device driver (settled.bound device driver present known accepted).1
    exact ⟨home, order⟩
  · intro ordered
    obtain ⟨enough, returns⟩ := register_returns start once registered ordered
    obtain ⟨registry, returned⟩ := returns enough (Nat.le_refl _)
    obtain ⟨_, processed⟩ := register_processed start once registered returned
    exact ⟨enough, registry, returned, processed.settled single ordered⟩

end Runs

/-- One bus, and for each device the driver of the same number. -/
def numbered : Hardware Nat Nat Nat where
  deviceBus := fun _ => 0
  driverBus := fun _ => 0
  isMatch := fun device driver => device = driver
  probe := fun _ _ => true

theorem numbered_single (calls : List (Call Nat Nat)) : OneDriver numbered calls := by
  intro device driver other _ _ _ accepted taken
  simp only [Hardware.accepts, numbered, Bool.and_true, decide_eq_true_eq] at accepted taken
  exact accepted.symm.trans taken

theorem binding_settles_two :
    (∃ bound registry, register numbered bound [.driver 1, .device 2, .device 1] (withBuses [0] ⟨fun node => ⟨node, node⟩⟩) =
      .ok registry ∧ Settled numbered [.driver 1, .device 2, .device 1] registry) := by
  refine (binding_settles_iff numbered [0] _ _ (by decide) ?_ (numbered_single _)).mpr ?_
  · intro call _
    cases call <;> exact mem_singleton.mpr rfl
  · intro device driver _ known accepted
    have first : driver = 1 := by simpa using known
    subst first
    have same : device = 1 := by simpa [Hardware.accepts, numbered] using accepted
    subst same
    decide

theorem late_driver_does_not_return :
    ([.device 1, .driver 1] : List (Call Nat Nat)).Nodup ∧ OneDriver numbered [.device 1, .driver 1] ∧
      numbered.accepts 1 1 = true ∧ ∀ bound registry,
        register numbered bound [.device 1, .driver 1] (withBuses [0] ⟨fun node => ⟨node, node⟩⟩) ≠ .ok registry := by
  refine ⟨by decide, numbered_single _, rfl, fun bound registry returned => ?_⟩
  match bound with
  | 0 => exact nomatch returned
  | 1 => exact nomatch returned
  | bound + 2 =>
    have stray : register numbered (bound + 2) [.device 1, .driver 1] (withBuses [0] ⟨fun node => ⟨node, node⟩⟩) =
        .error .strayEntry := rfl
    contradiction

end KOs.Device

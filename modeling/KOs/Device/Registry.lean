import KOs.Common.List
import KOs.Data.Loop
import Mathlib.Algebra.Ring.Nat

namespace KOs.Device

open KOs.Common KOs.Data

/-! Buses, drivers and devices, from `device/device.c`.

The device lists of a bus are link cells, because `register_driver` moves an entry while it walks along
them.  Buses and drivers are never removed, and are sequences with the newest entry first.  `match` and
`probe` answer the same whenever they are asked; calls of `enable` are put on record.
-/

/-- What is known of devices and drivers before they are registered. -/
structure Hardware (β : Type u) (δ : Type v) (ρ : Type w) where
  deviceBus : δ → β
  driverBus : ρ → β
  /-- `device->bus->match(device, driver)`. -/
  isMatch : δ → ρ → Bool
  probe : ρ → δ → Bool

def Hardware.accepts {β : Type u} {δ : Type v} {ρ : Type w} (hardware : Hardware β δ ρ) (device : δ) (driver : ρ) : Bool :=
  hardware.isMatch device driver && hardware.probe driver device

inductive Head (β : Type u) where
  | devices (bus : β)
  | unidentDevices (bus : β)
deriving DecidableEq, Repr

inductive Name (ρ : Type w) where
  | generic (id : Nat)
  | given (driver : ρ)
deriving DecidableEq, Repr

structure Registry (β : Type u) (δ : Type v) (ρ : Type w) where
  buses : List β
  drivers : β → List ρ
  links : Links (Head β ⊕ δ)
  driver : δ → Option ρ
  name : δ → Option (Name ρ)
  nextId : Nat
  /-- The calls of `driver->enable(device)`, the last one first. -/
  enabled : List (δ × ρ)

section Calls

variable {β : Type u} {δ : Type v} {ρ : Type w} [DecidableEq β] [DecidableEq δ]

def registerBus (bus : β) (registry : Registry β δ ρ) : Registry β δ ρ :=
  { registry with
    drivers := Function.update registry.drivers bus []
    links := listInit (.inl (.unidentDevices bus)) (listInit (.inl (.devices bus)) registry.links)
    buses := bus :: registry.buses }

/-- `device->driver = driver; device->node.name = device->driver->name(device)`, the given links,
`driver->enable(device)`. -/
def bindDevice (device : δ) (driver : ρ) (links : Links (Head β ⊕ δ)) (registry : Registry β δ ρ) : Registry β δ ρ :=
  { registry with
    driver := Function.update registry.driver device (some driver)
    name := Function.update registry.name device (some (.given driver))
    links := links
    enabled := (device, driver) :: registry.enabled }

/-- One turn of the inner loop of `register_driver`, at a cell that is not the end of the list. -/
def identifyDevice (hardware : Hardware β δ ρ) (driver : ρ) :
    (Head β ⊕ δ) × Registry β δ ρ → Except Fault ((Head β ⊕ δ) × Registry β δ ρ)
  -- `list_entry` takes the head of another list for a device
  | (.inl _, _) => .error .strayEntry
  | (.inr device, registry) =>
      let registry :=
        if hardware.accepts device driver then
          bindDevice device driver (listMove (.inr device) (.inl (.devices (hardware.deviceBus device))) registry.links) registry
        else
          registry
      -- `list_next_unsafe`, after the entry was moved
      .ok ((registry.links (.inr device)).next, registry)

/-- `LIST_FOR_EACH_ENTRY(device, &bus->unident_devices, list)`. -/
def identifyDevices (hardware : Hardware β δ ρ) (bound : Nat) (driver : ρ) (bus : β) (registry : Registry β δ ρ) :
    Except Fault (Registry β δ ρ) :=
  (whileLoop (fun state => state.1 ≠ .inl (.unidentDevices bus)) (identifyDevice hardware driver) .unfinished bound
    (listFirst registry.links (.inl (.unidentDevices bus)), registry)).map Prod.snd

def identifyAll (hardware : Hardware β δ ρ) (bound : Nat) (driver : ρ) : List β → Registry β δ ρ → Except Fault (Registry β δ ρ)
  | [], registry => .ok registry
  | bus :: buses, registry =>
      match identifyDevices hardware bound driver bus registry with
      | .ok next => identifyAll hardware bound driver buses next
      | .error reason => .error reason

def registerDriver (hardware : Hardware β δ ρ) (bound : Nat) (driver : ρ) (registry : Registry β δ ρ) :
    Except Fault (Registry β δ ρ) :=
  let bus := hardware.driverBus driver
  let registry := { registry with drivers := Function.update registry.drivers bus (driver :: registry.drivers bus) }
  identifyAll hardware bound driver registry.buses registry

def registerDevice (hardware : Hardware β δ ρ) (device : δ) (registry : Registry β δ ρ) : Registry β δ ρ :=
  let bus := hardware.deviceBus device
  let registry := { registry with driver := Function.update registry.driver device none }
  match (registry.drivers bus).find? (hardware.accepts device) with
  | some driver => bindDevice device driver (listAdd (.inr device) (.inl (.devices bus)) registry.links) registry
  | none =>
      { registry with
        name := Function.update registry.name device (some (.generic registry.nextId))
        -- a `uint32_t`
        nextId := (registry.nextId + 1) % 2 ^ 32
        links := listAdd (.inr device) (.inl (.unidentDevices bus)) registry.links }

inductive Call (δ : Type v) (ρ : Type w) where
  | device (device : δ)
  | driver (driver : ρ)
deriving DecidableEq, Repr

def perform (hardware : Hardware β δ ρ) (bound : Nat) : Call δ ρ → Registry β δ ρ → Except Fault (Registry β δ ρ)
  | .device device, registry => .ok (registerDevice hardware device registry)
  | .driver driver, registry => registerDriver hardware bound driver registry

def register (hardware : Hardware β δ ρ) (bound : Nat) : List (Call δ ρ) → Registry β δ ρ → Except Fault (Registry β δ ρ)
  | [], registry => .ok registry
  | call :: calls, registry =>
      match perform hardware bound call registry with
      | .ok next => register hardware bound calls next
      | .error reason => .error reason

/-- Before the first bus is registered.  The cells hold anything. -/
def blank (links : Links (Head β ⊕ δ)) : Registry β δ ρ where
  buses := []
  drivers := fun _ => []
  links := links
  driver := fun _ => none
  name := fun _ => none
  nextId := 0
  enabled := []

/-- The buses are registered, the last of the sequence first. -/
def withBuses (buses : List β) (links : Links (Head β ⊕ δ)) : Registry β δ ρ :=
  buses.foldr registerBus (blank links)

end Calls

end KOs.Device

import ClusterGate.Json.Fields
import ClusterGate.Error

/-!
# VM SKUs

A SKU is a size of virtual machines on offer in a region: the zones in which it is offered and named
capabilities. Of several capabilities with one name the first one counts.
-/

namespace ClusterGate

structure Capability where
  name : String
  value : String
deriving DecidableEq, Repr

namespace Capability

def encode (c : Capability) : Json := Json.object [("name", .str c.name), ("value", .str c.value)]

def read? (d : Doc) : Option Capability := do
  let s ← d.slots? ["name", "value"]
  return ⟨← s.required "name" Doc.text?, ← s.required "value" Doc.text?⟩

def memory : String := "MemoryGB"

def cpus : String := "vCPUs"

def premiumIo : String := "PremiumIO"

def acceleratedNetworking : String := "AcceleratedNetworkingEnabled"

/-- The value of a supported capability, in any case. -/
def supported : String := "True"

end Capability

structure Sku where
  name : String
  /-- Ascending, without repetition. -/
  zones : List String := []
  capabilities : List Capability := []
deriving DecidableEq, Repr, Inhabited

namespace Sku

def encode (s : Sku) : Json :=
  Json.object [("name", .str s.name), ("zones", Json.texts s.zones),
    ("capabilities", .arr (s.capabilities.map Capability.encode))]

def read? (d : Doc) : Option Sku := do
  let s ← d.slots? ["name", "zones", "capabilities"]
  return {
    name := ← s.required "name" Doc.text?
    zones := ← s.defaulted "zones" [] Doc.textSet?
    capabilities := ← s.defaulted "capabilities" [] (Doc.list? Capability.read?) }

def withCapability (s : Sku) (name value : String) : Sku :=
  { s with capabilities := s.capabilities ++ [⟨name, value⟩] }

def withZone (s : Sku) (zone : String) : Sku := { s with zones := sortedSet (s.zones ++ [zone]) }

def capability? (s : Sku) (name : String) : Option String :=
  (s.capabilities.find? fun c => c.name == name).map Capability.value

def supports (s : Sku) (name : String) : Bool :=
  match s.capability? name with
  | some value => Text.sameIgnoringCase value Capability.supported
  | none => false

/-- A capability that has to be a number of 64 bits. -/
def number (s : Sku) (name : String) : Except GateError Nat :=
  match (s.capability? name).bind Text.word? with
  | some n => .ok n
  | none => .error (.invalidResponse s.name name (s.capability? name))

end Sku

structure CapabilityRecord where
  instanceType : String
  memoryGb : Nat
  cpus : Nat
  premiumStorage : Bool
  acceleratedNetworking : Bool
  /-- Ascending, without repetition. -/
  zones : List String
deriving DecidableEq, Repr

namespace CapabilityRecord

/-- The typed capabilities of a SKU; memory is looked at before the cores. -/
def ofSku (s : Sku) : Except GateError CapabilityRecord := do
  let memory ← s.number Capability.memory
  let cpus ← s.number Capability.cpus
  return ⟨s.name, memory, cpus, s.supports Capability.premiumIo,
    s.supports Capability.acceleratedNetworking, s.zones⟩

def fields (r : CapabilityRecord) : List (String × Json) :=
  [("instanceType", .str r.instanceType), ("memoryGB", .int r.memoryGb), ("vCPUs", .int r.cpus),
   ("supportsPremiumStorage", .bool r.premiumStorage),
   ("supportsAcceleratedNetworking", .bool r.acceleratedNetworking),
   ("availabilityZones", Json.texts r.zones)]

def encode (r : CapabilityRecord) : Json := Json.object r.fields

def read? (d : Doc) : Option CapabilityRecord := do
  let s ← d.slots? ["instanceType", "memoryGB", "vCPUs", "supportsPremiumStorage",
    "supportsAcceleratedNetworking", "availabilityZones"]
  return {
    instanceType := ← s.required "instanceType" Doc.text?
    memoryGb := ← s.required "memoryGB" Doc.word?
    cpus := ← s.required "vCPUs" Doc.word?
    premiumStorage := ← s.required "supportsPremiumStorage" Doc.bool?
    acceleratedNetworking := ← s.required "supportsAcceleratedNetworking" Doc.bool?
    zones := ← s.required "availabilityZones" Doc.textSet? }

end CapabilityRecord

/-- The SKUs of a region by name. -/
abbrev RegionTable := Dict Sku

/-- The table of a listing; of several SKUs with one name the last one stays. -/
def RegionTable.ofListing (skus : List Sku) : RegionTable :=
  Dict.ofList (skus.map fun s => (s.name, s))

def regionFilter (region : String) : String := "location eq '" ++ region ++ "'"

end ClusterGate

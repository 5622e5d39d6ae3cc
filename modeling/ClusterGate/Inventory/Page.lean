import ClusterGate.Json.Reader
import ClusterGate.Sku.Basic

/-!
# Pages of the inventory

A page lists items and may link to the next page. An item becomes a SKU if it is a virtual machine
size with a name; its zones are those of the region asked for.
-/

namespace ClusterGate.Inventory

structure LocationInfo where
  location : Option String
  zones : List String
deriving DecidableEq, Repr

/-- A name and a value, each perhaps missing. -/
structure LooseCapability where
  name : Option String
  value : Option String
deriving DecidableEq, Repr

structure Item where
  name : Option String
  resourceType : Option String
  locations : List LocationInfo
  capabilities : List LooseCapability
deriving DecidableEq, Repr

structure Page where
  items : List Item
  nextLink : Option String
deriving DecidableEq, Repr

def machineType : String := "virtualMachines"

def LocationInfo.read? (d : Doc) : Option LocationInfo := do
  let s ← d.slots? ["location", "zones"]
  return ⟨← s.optional "location" Doc.text?, ← s.defaulted "zones" [] (Doc.list? Doc.text?)⟩

def LooseCapability.read? (d : Doc) : Option LooseCapability := do
  let s ← d.slots? ["name", "value"]
  return ⟨← s.optional "name" Doc.text?, ← s.optional "value" Doc.text?⟩

def LooseCapability.complete? (c : LooseCapability) : Option Capability := do
  return ⟨← c.name, ← c.value⟩

namespace Item

def read? (d : Doc) : Option Item := do
  let s ← d.slots? ["name", "resourceType", "locationInfo", "capabilities"]
  return {
    name := ← s.optional "name" Doc.text?
    resourceType := ← s.optional "resourceType" Doc.text?
    locations := ← s.defaulted "locationInfo" [] (Doc.list? LocationInfo.read?)
    capabilities := ← s.defaulted "capabilities" [] (Doc.list? LooseCapability.read?) }

/-- Whether a location is the region asked for; the case of letters does not count. -/
def isIn (region : String) (info : LocationInfo) : Bool :=
  match info.location with
  | some location => Text.sameIgnoringCase location region
  | none => false

/-- The zones of a region in which an item is offered. -/
def zonesIn (i : Item) (region : String) : List String :=
  sortedSet ((i.locations.filter (isIn region)).flatMap LocationInfo.zones)

/-- The SKU that an item stands for in a region, if it is a machine size with a name. -/
def sku? (region : String) (i : Item) : Option Sku :=
  if i.resourceType = some machineType then
    i.name.map fun name =>
      ⟨name, i.zonesIn region, i.capabilities.filterMap LooseCapability.complete?⟩
  else none

end Item

namespace Page

def read? (d : Doc) : Option Page := do
  let s ← d.slots? ["value", "nextLink"]
  return ⟨← s.defaulted "value" [] (Doc.list? Item.read?), ← s.optional "nextLink" Doc.text?⟩

def ofBody? (body : List UInt8) : Option Page :=
  (Json.readBytes body).bind read?

def skus (p : Page) (region : String) : List Sku := p.items.filterMap (Item.sku? region)

/-- The link to the next page, if there is one. -/
def next? (p : Page) : Option String := p.nextLink.filter (· ≠ "")

end Page

end ClusterGate.Inventory

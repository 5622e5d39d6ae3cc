import ClusterGate.Engine

/-!
# Capability queries

What is asked about an instance type in a region. Empty names are refused before anything is looked
up.
-/

namespace ClusterGate.Sku

def resolve (region instanceType : String) : Engine Sku := do
  if region = "" then Engine.fail (.invalidRequest "region can't be empty")
  else if instanceType = "" then Engine.fail (.invalidRequest "instance type can't be empty")
  else
    let table ← Engine.query (.region region)
    match Dict.get? instanceType table with
    | some sku => return sku
    | none => Engine.fail (.skuNotFound region instanceType)

def memoryOf (region instanceType : String) : Engine Nat := do
  Engine.ofExcept ((← resolve region instanceType).number Capability.memory)

def cpusOf (region instanceType : String) : Engine Nat := do
  Engine.ofExcept ((← resolve region instanceType).number Capability.cpus)

def capabilityOf (region instanceType name : String) : Engine (Option String) := do
  if name = "" then Engine.fail (.invalidRequest "capability name can't be empty")
  else return (← resolve region instanceType).capability? name

def hasCapability (region instanceType name : String) : Engine Bool := do
  match ← capabilityOf region instanceType name with
  | some value => return Text.sameIgnoringCase value Capability.supported
  | none => return false

def recordOf (region instanceType : String) : Engine CapabilityRecord := do
  Engine.ofExcept (CapabilityRecord.ofSku (← resolve region instanceType))

def zonesOf (region instanceType : String) : Engine (List String) :=
  return (← resolve region instanceType).zones

end ClusterGate.Sku

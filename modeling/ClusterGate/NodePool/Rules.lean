import ClusterGate.NodePool.Basic
import ClusterGate.Sku.Queries
import ClusterGate.Text.Quoted

/-!
# Rules for node pools

What a pool has to satisfy when it is created, what an update may not change, and what is looked at
again when the VM size changes.
-/

namespace ClusterGate.NodePool

def checkInstanceType (p : NodePool) : Engine Unit := do
  let memory ← Sku.memoryOf p.location p.vmSize
  let cpus ← Sku.cpusOf p.location p.vmSize
  Engine.require (minMemoryGb ≤ memory)
    ("memory has to be at least " ++ toString minMemoryGb ++ " GB, " ++ p.vmSize ++ " offers " ++
      toString memory)
  Engine.require (minCpus ≤ cpus)
    ("number of cores has to be at least " ++ toString minCpus ++ ", " ++ p.vmSize ++
      " offers " ++ toString cpus)

def checkStorage (p : NodePool) : Engine Unit := do
  let selected := p.storageAccountType
  Engine.require (selected == standardStorage || selected == premiumStorage)
    ("storage account type " ++ Text.quoted selected ++ " is invalid, allowed values are " ++
      Text.quoted standardStorage ++ " and " ++ Text.quoted premiumStorage)
  if selected = premiumStorage then
    let supported ← Sku.hasCapability p.location p.vmSize Capability.premiumIo
    Engine.require supported ("VM size " ++ p.vmSize ++ " does not support premium storage")
  else return ()

def checkNetworking (p : NodePool) : Engine Unit := do
  if p.acceleratedNetworking = some true then
    let supported ← Sku.hasCapability p.location p.vmSize Capability.acceleratedNetworking
    Engine.require supported
      ("VM size " ++ p.vmSize ++ " does not support accelerated networking")
  else return ()

def checkFailureDomain (p : NodePool) : Engine Unit := do
  match p.effectiveFailureDomain with
  | none => return ()
  | some domain =>
    let zones ← Sku.zonesOf p.location p.vmSize
    Engine.require (zones.contains domain)
      ("failure domain " ++ domain ++ " is not supported by VM size " ++ p.vmSize ++ " in " ++
        p.location ++ ", supported zones are " ++ Text.quotedList zones)

def checkDisks (p : NodePool) : Engine Unit :=
  Engine.require (p.dataDisks == DataDisk.desired) "data disks do not have the required value"

def checkNetworkingUnchanged (old new : NodePool) : Engine Unit :=
  Engine.require (old.acceleratedNetworking == new.acceleratedNetworking)
    "accelerated networking can't be changed"

def checkFailureDomainUnchanged (old new : NodePool) : Engine Unit :=
  Engine.require (old.effectiveFailureDomain == new.effectiveFailureDomain)
    "failure domain can't be changed"

def checkStorageUnchanged (old new : NodePool) : Engine Unit :=
  Engine.require (old.storageAccountType == new.storageAccountType)
    "storage account type can't be changed"

def checkSizeUpdate (old new : NodePool) : Engine Unit := do
  if old.vmSize = new.vmSize then return ()
  else
    checkInstanceType new
    checkStorage new
    checkNetworking new

def validateCreate (p : NodePool) : Engine Unit := do
  checkInstanceType p
  checkStorage p
  checkNetworking p
  checkDisks p
  checkFailureDomain p

def validateUpdate (old new : NodePool) : Engine Unit := do
  checkNetworkingUnchanged old new
  checkFailureDomainUnchanged old new
  checkStorageUnchanged old new
  checkSizeUpdate old new

end ClusterGate.NodePool

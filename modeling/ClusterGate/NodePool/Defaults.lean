import ClusterGate.NodePool.Rules
import ClusterGate.Patch.Basic

/-!
# Defaults for node pools

A new pool gets the best storage its VM size supports, the desired data disks and a default location,
each only where the pool leaves it open.
-/

namespace ClusterGate.NodePool

open Patch

def defaultStorage (p : NodePool) : Engine (Option Operation) := do
  if p.storageAccountType ≠ "" then return none
  else
    let premium ← Sku.hasCapability p.location p.vmSize Capability.premiumIo
    return some (.add storagePath (.str (if premium then premiumStorage else standardStorage)))

def defaultDisks (p : NodePool) : Option Operation :=
  if p.dataDisks.isEmpty then
    some (.add disksPath (.arr (DataDisk.desired.map DataDisk.encode)))
  else none

def defaultLocation (p : NodePool) (location : String) : Option Operation :=
  if p.location = "" then some (.add locationPath (.str location)) else none

/-- All defaults for a new pool. A defaulted location is in force before storage is looked up. -/
def mutateCreate (p : NodePool) (location : String) : Engine (List Operation) := do
  let located := if p.location = "" then { p with location := location } else p
  let storage ← defaultStorage located
  let ops := storage.toList ++ (defaultDisks located).toList ++ (defaultLocation p location).toList
  Engine.notes (diffNotes ops)
  return ops

end ClusterGate.NodePool

import ClusterGate.NodePool.Defaults
import ClusterGate.Catalog.Label

/-!
# Requests and replies

The requests that a session sends to the engines, and every kind of reply that a session gives.
-/

namespace ClusterGate.Session

structure ContextState where
  done : Bool
  deadline : Option Nat
  cancelled : Bool
deriving DecidableEq, Repr

inductive Failure where
  | gate (e : GateError)
  | storage (e : StorageError)
  | version (e : Version.Invalid)
  /-- A part of the step could not be read. -/
  | unreadable
  /-- The step waits for something that never comes. -/
  | stalled
deriving DecidableEq, Repr

inductive Reply where
  | unit
  | number (n : Nat)
  | flag (b : Bool)
  | text? (s : Option String)
  | texts (ts : List String)
  | value (v : Json)
  | decision (d : Upgrade.Decision)
  | releases (rs : List Release)
  | components (cs : Components)
  | sku (s : Sku)
  | skus (ss : List Sku)
  | capabilities (r : CapabilityRecord)
  | record? (r : Option Record)
  | records (rs : List Record)
  | operation? (op : Option Patch.Operation)
  | operations (ops : List Patch.Operation)
  | context (c : ContextState)
  | group (results : List (Except Failure Reply))

inductive Request where
  | releases
  | components (release : String)
  | contains (release component : String)
  | review (old new : Version)
  | reviewNames (old new : String)
  | memory (region instanceType : String)
  | cpus (region instanceType : String)
  | zones (region instanceType : String)
  | capabilities (region instanceType : String)
  | resolve (region instanceType : String)
  | has (region instanceType name : String)
  | capability (region instanceType name : String)
  | checkInstanceType (p : NodePool)
  | checkStorage (p : NodePool)
  | checkNetworking (p : NodePool)
  | checkFailureDomain (p : NodePool)
  | checkDisks (p : NodePool)
  | validateCreate (p : NodePool)
  | checkNetworkingUnchanged (old new : NodePool)
  | checkFailureDomainUnchanged (old new : NodePool)
  | checkStorageUnchanged (old new : NodePool)
  | checkSizeUpdate (old new : NodePool)
  | validateUpdate (old new : NodePool)
  | defaultStorage (p : NodePool)
  | defaultDisks (p : NodePool)
  | defaultLocation (p : NodePool) (location : String)
  | mutateCreate (p : NodePool) (location : String)
  | componentLabel (object : Json) (component label : String)

def Request.engine : Request → Engine Reply
  | .releases => return .releases (← Catalog.releases)
  | .components release => return .components (← Catalog.components release)
  | .contains release component => return .flag (← Catalog.contains release component)
  | .review old new => return .decision (← Upgrade.review old new)
  | .reviewNames old new => return .decision (← Upgrade.reviewNames old new)
  | .memory region type => return .number (← Sku.memoryOf region type)
  | .cpus region type => return .number (← Sku.cpusOf region type)
  | .zones region type => return .texts (← Sku.zonesOf region type)
  | .capabilities region type => return .capabilities (← Sku.recordOf region type)
  | .resolve region type => return .sku (← Sku.resolve region type)
  | .has region type name => return .flag (← Sku.hasCapability region type name)
  | .capability region type name => return .text? (← Sku.capabilityOf region type name)
  | .checkInstanceType p => do p.checkInstanceType; return .unit
  | .checkStorage p => do p.checkStorage; return .unit
  | .checkNetworking p => do p.checkNetworking; return .unit
  | .checkFailureDomain p => do p.checkFailureDomain; return .unit
  | .checkDisks p => do p.checkDisks; return .unit
  | .validateCreate p => do p.validateCreate; return .unit
  | .checkNetworkingUnchanged old new => do old.checkNetworkingUnchanged new; return .unit
  | .checkFailureDomainUnchanged old new => do old.checkFailureDomainUnchanged new; return .unit
  | .checkStorageUnchanged old new => do old.checkStorageUnchanged new; return .unit
  | .checkSizeUpdate old new => do old.checkSizeUpdate new; return .unit
  | .validateUpdate old new => do old.validateUpdate new; return .unit
  | .defaultStorage p => return .operation? (← p.defaultStorage)
  | .defaultDisks p => return .operation? p.defaultDisks
  | .defaultLocation p location => return .operation? (p.defaultLocation location)
  | .mutateCreate p location => return .operations (← p.mutateCreate location)
  | .componentLabel object component label =>
    return .operation? (← Catalog.componentLabel object component label)

end ClusterGate.Session

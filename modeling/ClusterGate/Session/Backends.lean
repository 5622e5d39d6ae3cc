import ClusterGate.Store.Record
import ClusterGate.Sku.Basic

/-!
# Scripted backends

A record store and a SKU inventory for sessions. They answer after a latency, count their calls and
can be made to fail. Scripted answers come first: each is used up by one call, which then neither
counts nor takes the backend's own latency.
-/

namespace ClusterGate.Session

/-- A call of a backend under way: when it will be answered, and its answer if that is scripted. -/
structure Flight (α : Type) where
  readyAt : Nat
  scripted : Option α
deriving Repr

/-- When a call made at a time is answered; without latency it is answered at once. -/
def readyAfter (now latency : Nat) : Nat := if latency = 0 then 0 else now + latency

inductive StoreCall where
  | list (kind : String)
  | get (kind name : String)
deriving DecidableEq, Repr

structure StoreBackend where
  records : MemoryStore := {}
  failure : Option String := none
  latency : Nat := 0
  script : List StorageError := []
  listCalls : Nat := 0
  getCalls : Nat := 0
deriving Repr, Inhabited

namespace StoreBackend

def call (s : StoreBackend) (now : Nat) (c : StoreCall) : Flight StorageError × StoreBackend :=
  match s.script with
  | e :: rest => (⟨0, some e⟩, { s with script := rest })
  | [] => (⟨readyAfter now s.latency, none⟩, match c with
    | .list _ => { s with listCalls := s.listCalls + 1 }
    | .get .. => { s with getCalls := s.getCalls + 1 })

/-- The failure of a call that is due, if it fails. -/
def failure? (s : StoreBackend) (f : Flight StorageError) : Option StorageError :=
  match f.scripted with
  | some e => some e
  | none => s.failure.map .unavailable

def listed (s : StoreBackend) (f : Flight StorageError) (kind : String) :
    Except StorageError (List Record) :=
  match s.failure? f with
  | some e => .error e
  | none => .ok (s.records.list kind)

/-- The answer to a request for one record that is due. -/
def got (s : StoreBackend) (f : Flight StorageError) (kind name : String) :
    Except StorageError (Option Record) :=
  match s.failure? f with
  | some e => .error e
  | none => .ok (s.records.get? kind name)

end StoreBackend

structure ScriptedListing where
  latency : Nat
  answer : Except StorageError (List Sku)

structure SourceBackend where
  regions : Dict (List Sku) := []
  failure : Option String := none
  latency : Nat := 0
  scripts : Dict (List ScriptedListing) := []
  calls : Nat := 0
  callsByRegion : Dict Nat := []
  /-- Every filter received, in order. -/
  filters : List String := []
deriving Inhabited

namespace SourceBackend

def call (s : SourceBackend) (now : Nat) (region filter : String) :
    Flight (Except StorageError (List Sku)) × SourceBackend :=
  let s := { s with filters := s.filters ++ [filter] }
  match (s.scripts.get? region).getD [] with
  | script :: rest =>
    (⟨readyAfter now script.latency, some script.answer⟩,
      { s with scripts := s.scripts.insert region rest })
  | [] =>
    (⟨readyAfter now s.latency, none⟩,
      { s with
        calls := s.calls + 1
        callsByRegion := s.callsByRegion.insert region ((s.callsByRegion.get? region).getD 0 + 1) })

def listed (s : SourceBackend) (f : Flight (Except StorageError (List Sku))) (region : String) :
    Except StorageError (List Sku) :=
  match f.scripted with
  | some answer => answer
  | none => match s.failure with
    | some detail => .error (.unavailable detail)
    | none => .ok ((s.regions.get? region).getD [])

def enqueue (s : SourceBackend) (region : String) (script : ScriptedListing) : SourceBackend :=
  { s with scripts := s.scripts.insert region ((s.scripts.get? region).getD [] ++ [script]) }

end SourceBackend

end ClusterGate.Session
